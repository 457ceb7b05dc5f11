import TensorGraph.Proofs.Agreement
import TensorGraph.Proofs.Registry
import TensorGraph.Proofs.Renaming.Model

/-!
# Registries under a renaming

Two registries that hold the same under names that a renaming leads to one another. Until a value has
got its final name, it bears the name that the file has for it, which differs between the two
(`Registry.Renamed`). Every operation of a registry keeps this.
-/

namespace TensorGraph

open Onnx Registry

variable {g : String → String} {settled : String → Prop} {r r' : Registry} {v w : Value}
  {vs : List Value} {x y producer new : String} {slot : Slot}

/-- A value that has its final name is the same in both runs, and any other is renamed. -/
structure Value.Follows (g : String → String) (settled : Prop) (v w : Value) : Prop where
  final : settled → w = v
  pending : ¬ settled → w = v.rename g

lemma Value.Follows.eq {p : Prop} (h : v.Follows g p w) : w = { v with name := w.name } := by
  by_cases hp : p
  · rw [h.final hp]
  · rw [h.pending hp]
    rfl

/-- The registry `r'` holds under `g x` what `r` holds under `x`. The values under settled names have
their final names. -/
structure Registry.Renamed (g : String → String) (settled : String → Prop) (r r' : Registry) :
    Prop where
  sound : r.Sound
  slots : ∀ x, r'.slots.get? (g x) = r.slots.get? x
  initializers : ∀ x, r'.initializers.get? (g x) = (r.initializers.get? x).map (Value.rename g)
  inputs : r'.inputs = r.inputs
  outputs : r'.outputs.length = r.outputs.length
  interior : r'.interior.length = r.interior.length
  missed : ∀ x, g x ∈ r'.missed ↔ x ∈ r.missed
  registered : ∀ {x}, settled x → (r.slots.get? x).isSome
  value : ∀ {x slot}, r.slots.get? x = some slot → (∀ i, slot ≠ .input i) →
    (r.value slot).Follows g (settled x) (r'.value slot)

namespace Registry.Renamed

lemma contains (h : r.Renamed g settled r') :
    r'.initializers.contains (g x) = r.initializers.contains x := by
  rw [Table.contains_eq_isSome_get?, Table.contains_eq_isSome_get?, h.initializers,
    Option.isSome_map]

lemma value_input (h : r.Renamed g settled r') (i : Nat) :
    r'.value (.input i) = r.value (.input i) := by
  simp only [Registry.value, h.inputs]

lemma has (h : r.Renamed g settled r') (hs : r.slots.get? x = some slot) : r'.Has slot := by
  have := h.sound.has hs
  cases slot <;> simpa only [Has, h.inputs, h.outputs, h.interior] using this

lemma isOutput (h : r.Renamed g settled r') : r'.isOutput (g x) = r.isOutput x := by
  simp only [Registry.isOutput, h.slots]

lemma resolve (hg : Renaming g) (h : r.Renamed g settled r') (x : String) :
    Agree (fun v w => w = v.rename g) (r.resolve x) (r'.resolve (g x)) := by
  unfold Registry.resolve
  simp only [hg.eq_empty_iff, h.slots, h.initializers]
  split
  · exact .ok rfl
  · split
    · refine .ok ?_
      cases r.initializers.get? x <;> rfl
    · rw [h.value_input]
      exact .ok rfl
    · next i hs =>
      rw [(h.value hs (by simp)).eq]
      exact .ok rfl
    · exact .error (Error.alike_naming _ _)

lemma convert (hg : Renaming g) (h : r.Renamed g settled r') (raw : NodeMessage) :
    Agree (fun n n' => n' = n.rename g) (r.convert raw) (r'.convert (raw.rename g)) := by
  unfold Registry.convert
  refine (Agree.refl raw.knownOperator).bind fun o _ _ _ ho => ?_
  have hread : List.Forall₂ (fun x x' => x' = g x) raw.inputs (raw.rename g).inputs :=
    List.forall₂_map_right_iff.mpr (List.forall₂_same.mpr fun _ _ => rfl)
  refine (Agree.mapM hread fun x x' hx => hx ▸ h.resolve hg x).bind fun vs ws _ _ hvs => ?_
  refine (Agree.refl raw.toAttributes).bind fun attributes _ _ _ hattributes => .pure ?_
  obtain rfl : ws = vs.map (Value.rename g) := by
    rw [← List.forall₂_eq_eq_eq, List.forall₂_map_right_iff]
    exact hvs.flip
  rw [← ho, ← hattributes]
  simp [Node.rename, NodeMessage.rename, bareValue, Value.rename]

/-- The boundary under a name that is pending. -/
lemma boundary? (h : r.Renamed g settled r') (hx : ¬ settled x)
    (hin : ∀ i, r.slots.get? x ≠ some (.input i)) :
    Agree (fun b b' => b' = b.map (Value.rename g)) (r.boundary? x) (r'.boundary? (g x)) := by
  unfold Registry.boundary?
  rw [h.slots]
  split
  · exact .ok rfl
  · exact .error (Error.alike_naming _ _)
  · next slot _ hs =>
    refine .ok ?_
    rw [(h.value hs fun i hi => hin i (hi ▸ hs)).pending hx]
    rfl

/-! ## Writing -/

variable {settled' : String → Prop} {f f' : Value → Value}

lemma modify (h : r.Renamed g settled r') (hs : r.slots.get? x = some slot)
    (hin : ∀ i, slot ≠ .input i) (hother : ∀ y, y ≠ x → (settled' y ↔ settled y))
    (hf : (f (r.value slot)).Follows g (settled' x) (f' (r'.value slot))) :
    (r.modify f slot).Renamed g settled' (r'.modify f' slot) where
  sound := sound_modify f h.sound
  slots y := by rw [slots_modify, slots_modify, h.slots]
  initializers y := by rw [initializers_modify, initializers_modify, h.initializers]
  inputs := by
    cases slot with
    | input i => exact absurd rfl (hin i)
    | _ => exact h.inputs
  outputs := by cases slot <;> simp [Registry.modify, h.outputs]
  interior := by cases slot <;> simp [Registry.modify, h.interior]
  missed y := by rw [missed_modify, missed_modify, h.missed]
  registered {y} hy := by
    rw [slots_modify]
    by_cases hyx : y = x
    · rw [hyx, hs]
      rfl
    · exact h.registered ((hother y hyx).mp hy)
  value {y slot'} hy hin' := by
    rw [slots_modify] at hy
    by_cases hyx : y = x
    · obtain rfl : slot = slot' := by simpa [hyx, hs] using hy
      rw [value_modify_self f (h.sound.has hs), value_modify_self f' (h.has hs), hyx]
      exact hf
    · have hne : slot' ≠ slot := fun e => hyx (h.sound.injective hy (e ▸ hs))
      rw [value_modify_of_ne f hne, value_modify_of_ne f' hne]
      have := h.value hy hin'
      exact ⟨fun hs => this.final ((hother y hyx).mp hs),
        fun hs => this.pending (mt (hother y hyx).mpr hs)⟩

/-- The graph inputs are called alike throughout. -/
lemma modify_input (h : r.Renamed g settled r') (f : Value → Value) (i : Nat) :
    (r.modify f (.input i)).Renamed g settled (r'.modify f (.input i)) where
  sound := sound_modify f h.sound
  slots := h.slots
  initializers := h.initializers
  inputs := by simp only [Registry.modify, h.inputs]
  outputs := h.outputs
  interior := h.interior
  missed := h.missed
  registered := h.registered
  value hs hin := by
    rw [value_modify_of_ne f (hin i), value_modify_of_ne f (hin i)]
    exact h.value hs hin

lemma addInterior (hg : Renaming g) (h : r.Renamed g settled r')
    (hother : ∀ y, y ≠ x → (settled' y ↔ settled y)) (hv : v.Follows g (settled' x) w) :
    (r.addInterior x v).Renamed g settled' (r'.addInterior (g x) w) where
  sound := sound_addInterior h.sound
  slots y := by simp only [slots_addInterior, hg.apply_eq_iff, h.interior, h.slots]
  initializers := h.initializers
  inputs := h.inputs
  outputs := h.outputs
  interior := by simp [Registry.addInterior, h.interior]
  missed := h.missed
  registered {y} hy := by
    rw [slots_addInterior]
    split
    · rfl
    · next hyx => exact h.registered ((hother y hyx).mp hy)
  value {y slot} hy hin := by
    rw [slots_addInterior] at hy
    split at hy
    · next hyx =>
      obtain rfl := Option.some.inj hy
      have hlast : (r'.addInterior (g x) w).value (.interior r.interior.length) = w := by
        rw [← h.interior, value_addInterior_last]
      rw [value_addInterior_last, hlast, hyx]
      exact hv
    · next hyx =>
      rw [value_addInterior (h.sound.has hy), value_addInterior (h.has hy)]
      have := h.value hy hin
      exact ⟨fun hs => this.final ((hother y hyx).mp hs),
        fun hs => this.pending (mt (hother y hyx).mpr hs)⟩

lemma Follows.copyFrom {p : Prop} {u : Value} (h : v.Follows g p w) :
    (v.copyFrom u).Follows g p (w.copyFrom (u.rename g)) := by
  refine ⟨fun hp => ?_, fun hp => ?_⟩
  · rw [h.final hp]
    rfl
  · rw [h.pending hp]
    rfl

/-- What a node has produced is recorded under its name in the file, as long as it bears that. -/
lemma recordOne (hg : Renaming g) (h : r.Renamed g settled r') (producer : String) (v : Value) :
    Agree (Registry.Renamed g settled) (r.recordOne producer v)
      (r'.recordOne producer (v.rename g)) := by
  have hname : (v.rename g).name = g v.name := rfl
  unfold Registry.recordOne
  simp only [hname, hg.eq_empty_iff, h.slots, h.missed]
  split
  · exact .ok h
  · split
    · next hs =>
      split
      · exact .error (Error.alike_naming _ _)
      · refine .ok (h.addInterior hg (fun _ _ => .rfl) ⟨fun hv => ?_, fun _ => rfl⟩)
        simpa [hs] using h.registered hv
    · next i hs => exact .ok (h.modify_input _ i)
    · next i hs =>
      refine .ok (h.modify hs (by simp) (fun _ _ => .rfl) ?_)
      have := Follows.copyFrom (u := v) (h.value hs (by simp))
      exact ⟨fun hp => by rw [this.final hp], fun hp => by rw [this.pending hp]; rfl⟩
    · exact .error (Error.alike_naming _ _)

lemma record (hg : Renaming g) (h : r.Renamed g settled r') (producer : String) (vs : List Value) :
    Agree (fun _ _ => Registry.Renamed g settled (r.record producer vs).1
        (r'.record producer (vs.map (Value.rename g))).1)
      (r.record producer vs).2 (r'.record producer (vs.map (Value.rename g))).2 := by
  induction vs generalizing r r' with
  | nil => exact .ok h
  | cons v vs ih =>
    have hone := h.recordOne hg producer v
    simp only [List.map_cons, Registry.record]
    cases hv : r.recordOne producer v <;>
      cases hw : r'.recordOne producer (v.rename g) <;> rw [hv, hw] at hone
    · exact .error hone
    · exact hone.elim
    · exact hone.elim
    · exact ih hone

/-- The final name of an operand whose value has its final name. -/
lemma newName (hg : Renaming g) (h : r.Renamed g settled r')
    (hx : ∀ i, r.slots.get? x = some (.interior i) → settled x) :
    Agree (fun a b => b.1 = a.1 ∧ a.2.Renamed g settled b.2) (r.newName x) (r'.newName (g x)) := by
  unfold Registry.newName
  simp only [hg.eq_empty_iff, h.slots, h.contains]
  split
  · exact .ok ⟨rfl, h⟩
  · split
    · refine .ok ⟨rfl, ?_⟩
      split
      · exact h
      · exact { h with
          sound := ⟨fun {_ slot} hs => by cases slot <;> exact h.sound.has hs, h.sound.injective⟩
          value := fun {_ slot} hs => by cases slot <;> exact h.value hs
          missed := fun y => by simp [hg.apply_eq_iff, h.missed] }
    · next i hs =>
      have hm := h.modify_input (fun v => { v with used := true }) i
      exact .ok ⟨by simp only [hm.value_input, hm.contains], hm⟩
    · next i hs => exact .ok ⟨by rw [(h.value hs (by simp)).final (hx i hs)], h⟩
    · exact .error (Error.alike_naming _ _)

/-- A value gets its final name. -/
lemma follows_final {p : Prop} (h : v.Follows g p w) (new : String) :
    ({ v with name := new } : Value).Follows g True { w with name := new } :=
  ⟨fun _ => by rw [h.eq], fun hp => absurd trivial hp⟩

lemma rename (h : r.Renamed g settled r') (x new : String) :
    Agree (Registry.Renamed g fun y => y = x ∨ settled y) (r.rename x new)
      (r'.rename (g x) new) := by
  unfold Registry.rename
  simp only [h.slots]
  split
  · exact .error (Error.alike_naming _ _)
  · exact .error (Error.alike_naming _ _)
  · next slot hin hs =>
    have hin : ∀ i, slot ≠ .input i := fun i hi => hin i hi
    refine .ok (h.modify hs hin (fun y hy => by simp [hy]) ?_)
    simpa using follows_final (h.value hs hin) new

/-- The output of a Constant or of an identity, which is pending, gets its final name. -/
lemma insertOrRename (hg : Renaming g) (h : r.Renamed g settled r') (hv : ¬ settled v.name) :
    Agree (Registry.Renamed g fun y => y = v.name ∨ settled y) (r.insertOrRename v new)
      ((r'.insertOrRename (v.rename g)) new) := by
  have hinserted : (r.addInterior v.name { v with name := new }).Renamed g
      (fun y => y = v.name ∨ settled y)
      (r'.addInterior (g v.name) { v.rename g with name := new }) :=
    h.addInterior hg (fun y hy => by simp [hy]) ⟨fun _ => rfl, fun hp => absurd (.inl rfl) hp⟩
  have hrenamed : ∀ slot, r.slots.get? v.name = some slot → (∀ i, slot ≠ .input i) →
      (r.modify (fun w => { w with name := new }) slot).Renamed g
        (fun y => y = v.name ∨ settled y) (r'.modify (fun w => { w with name := new }) slot) :=
    fun slot hs hin => h.modify hs hin (fun y hy => by simp [hy])
      (by simpa using follows_final (h.value hs hin) new)
  have hname : (v.rename g).name = g v.name := rfl
  unfold Registry.insertOrRename
  simp only [hname, h.slots]
  split
  · exact .ok hinserted
  · next i hs =>
    have hvalue := (h.value hs (by simp)).pending hv
    have hpending : (r'.value (.interior i)).name = g (r.value (.interior i)).name := by
      rw [hvalue]
      rfl
    simp only [hpending, hg.apply_eq_iff]
    split
    · exact .ok (hrenamed _ hs (by simp))
    · exact .ok hinserted
  · next i hs => exact .ok (hrenamed _ hs (by simp))
  · exact .error (Error.alike_naming _ _)

end Registry.Renamed

end TensorGraph
