import TensorGraph.Proofs.Agreement
import TensorGraph.Proofs.Import.Growth

/-!
# Registries that hold the same in another order

Registries that tell the same types and literals, though they hold what nodes have written in another
order and under other new names (`Registry.Alike`). Values of different names are recorded in either
order (`recordOne_swap`).
-/

namespace TensorGraph

open Registry

/-- The values have the same type and the same literal. -/
structure Value.Same (v w : Value) : Prop where
  type : w.type = v.type
  literal : w.literal = v.literal

lemma Value.Same.refl (v : Value) : v.Same v := ⟨rfl, rfl⟩

lemma Value.Same.trans {u v w : Value} (h : u.Same v) (h' : v.Same w) : u.Same w :=
  ⟨h'.type.trans h.type, h'.literal.trans h.literal⟩

lemma Value.Same.symm {v w : Value} (h : v.Same w) : w.Same v := ⟨h.type.symm, h.literal.symm⟩

/-- The slots are of one kind, and for graph inputs and outputs the same. -/
inductive Slot.Like : Slot → Slot → Prop
  | input (i : Nat) : Like (.input i) (.input i)
  | output (i : Nat) : Like (.output i) (.output i)
  | interior (i j : Nat) : Like (.interior i) (.interior j)

variable {pending : List String} {r r₁ r₂ r₃ : Registry} {u u' v w : Value} {vs ws us us' : List Value}
  {x y producer producer' new : String} {slot slot' : Slot} {f g : Value → Value} {n : Node}

lemma Slot.Like.refl (slot : Slot) : slot.Like slot := by cases slot <;> constructor

lemma Slot.Like.symm (h : slot.Like slot') : slot'.Like slot := by cases h <;> constructor

/-- Slots of the graph boundary are of one kind only if they are the same. -/
lemma Slot.Like.eq_of_outer (h : slot.Like slot') (hinner : ∀ i, slot ≠ .interior i) : slot' = slot := by
  cases h with
  | input | output => rfl
  | interior i => exact absurd rfl (hinner i)

lemma Slot.Like.trans {slot'' : Slot} (h : slot.Like slot') (h' : slot'.Like slot'') :
    slot.Like slot'' := by
  cases h <;> cases h' <;> constructor

/-- The registries tell the same, but that they may hold what nodes have written at other places, and
under other new names what is not still to be written. -/
structure Registry.Alike (pending : List String) (r r₁ : Registry) : Prop where
  sound : r₁.Sound
  slots : ∀ x, Option.Rel Slot.Like (r.slots.get? x) (r₁.slots.get? x)
  initializers : r₁.initializers = r.initializers
  missed : r.missed ⊆ r₁.missed
  inputs : ∀ i, (r.value (.input i)).Same (r₁.value (.input i)) ∧
    (r₁.value (.input i)).name = (r.value (.input i)).name
  outputs : ∀ i, (r.value (.output i)).Same (r₁.value (.output i)) ∧
    (r₁.value (.output i)).used = (r.value (.output i)).used
  interior : ∀ x i j, r.slots.get? x = some (.interior i) → r₁.slots.get? x = some (.interior j) →
    (r.value (.interior i)).Same (r₁.value (.interior j))
  names : ∀ x ∈ pending, ∀ i, r.slots.get? x = some (.output i) →
    (r₁.value (.output i)).name = (r.value (.output i)).name

namespace Registry.Alike

lemma slots_none (h : Alike pending r r₁) : r₁.slots.get? x = none ↔ r.slots.get? x = none := by
  have hslots := h.slots x
  generalize r.slots.get? x = slot, r₁.slots.get? x = slot' at hslots ⊢
  cases hslots <;> simp

/-- The slots of the graph boundary are the same. -/
lemma slots_outer (h : Alike pending r r₁) (hinner : ∀ i, slot ≠ .interior i) :
    r₁.slots.get? x = some slot ↔ r.slots.get? x = some slot := by
  have hslots := h.slots x
  generalize r.slots.get? x = slot₀, r₁.slots.get? x = slot₁ at hslots ⊢
  cases hslots with
  | none => simp
  | some like =>
    constructor
    · rintro ⟨⟩
      rw [like.symm.eq_of_outer hinner]
    · rintro ⟨⟩
      rw [like.eq_of_outer hinner]

lemma slots_output {i : Nat} (h : Alike pending r r₁) :
    r₁.slots.get? x = some (.output i) ↔ r.slots.get? x = some (.output i) :=
  h.slots_outer (by simp)

lemma slots_interior (h : Alike pending r r₁) :
    (∃ i, r₁.slots.get? x = some (.interior i)) ↔ ∃ i, r.slots.get? x = some (.interior i) := by
  have hslots := h.slots x
  generalize r.slots.get? x = slot, r₁.slots.get? x = slot' at hslots ⊢
  cases hslots with
  | none => simp
  | some like => cases like <;> simp

lemma trans (h : Alike pending r r₁) (h' : Alike pending r₁ r₂) : Alike pending r r₂ where
  sound := h'.sound
  slots x := by
    have hslots := h.slots x
    have hslots' := h'.slots x
    generalize r.slots.get? x = slot, r₁.slots.get? x = slot₁,
      r₂.slots.get? x = slot₂ at hslots hslots' ⊢
    cases hslots with
    | none => exact hslots'
    | some like =>
      cases hslots' with
      | some like' => exact .some (like.trans like')
  initializers := h'.initializers.trans h.initializers
  missed := List.Subset.trans h.missed h'.missed
  inputs i := ⟨(h.inputs i).1.trans (h'.inputs i).1, (h'.inputs i).2.trans (h.inputs i).2⟩
  outputs i := ⟨(h.outputs i).1.trans (h'.outputs i).1, (h'.outputs i).2.trans (h.outputs i).2⟩
  interior x i k hi hk := by
    obtain ⟨j, hj⟩ := h.slots_interior.mpr ⟨i, hi⟩
    exact (h.interior x i j hi hj).trans (h'.interior x j k hj hk)
  names x hx i hi := (h'.names x hx i (h.slots_output.mpr hi)).trans (h.names x hx i hi)

/-- Registries with the same slots tell the same if their values do. -/
lemma of_slots (hr₁ : r₁.Sound) (hslots : r₁.slots = r.slots)
    (hinitializers : r₁.initializers = r.initializers) (hmissed : r.missed ⊆ r₁.missed)
    (hsame : ∀ slot, (r.value slot).Same (r₁.value slot))
    (hinputs : ∀ i, (r₁.value (.input i)).name = (r.value (.input i)).name)
    (hused : ∀ i, (r₁.value (.output i)).used = (r.value (.output i)).used)
    (hnames : ∀ x ∈ pending, ∀ i, r.slots.get? x = some (.output i) →
      (r₁.value (.output i)).name = (r.value (.output i)).name) : Alike pending r r₁ where
  sound := hr₁
  slots x := by
    rw [hslots]
    cases r.slots.get? x with
    | none => exact .none
    | some slot => exact .some (.refl slot)
  initializers := hinitializers
  missed := hmissed
  inputs i := ⟨hsame _, hinputs i⟩
  outputs i := ⟨hsame _, hused i⟩
  interior x i j hi hj := by
    obtain rfl : i = j := by simpa [hslots, hi] using hj
    exact hsame _
  names := hnames

lemma refl (hr : r.Sound) : Alike pending r r :=
  of_slots hr rfl rfl (List.Subset.refl _) (fun _ => .refl _) (fun _ => rfl) (fun _ => rfl)
    fun _ _ _ _ => rfl

/-- Marking what is read changes nothing that matters. -/
lemma of_marked (hr : r.Sound) (h : Marked r r₁) : Alike pending r r₁ := by
  have houtput : ∀ i, r₁.value (.output i) = r.value (.output i) := fun i => by
    simp only [Registry.value, h.outputs]
  refine of_slots (h.sound hr) h.slots h.initializers h.missed (fun slot => ?_)
    (fun i => h.name_value _) (fun i => by rw [houtput]) fun x _ i _ => by rw [houtput]
  rcases h.value slot with e | e <;> rw [e] <;> exact ⟨rfl, rfl⟩

/-- A name that is not still to be written may get another new name. -/
lemma of_rename (hr : r.Sound) (hx : x ∉ pending) (h : r.rename x new = .ok r₁) :
    Alike pending r r₁ := by
  obtain ⟨slot, hs, hin, rfl⟩ := rename_ok h
  have hother : ∀ {slot'}, slot' ≠ slot →
      (r.modify (fun v => { v with name := new }) slot).value slot' = r.value slot' :=
    value_modify_of_ne _
  have hself := value_modify_self (fun v => { v with name := new }) (hr.has hs)
  refine of_slots (sound_modify _ hr) (slots_modify _) (initializers_modify _)
    (by simp) (fun slot' => ?_) (fun i => by rw [hother (hin i ·.symm)])
    (fun i => ?_) fun y hy i hi => ?_
  · by_cases hslot : slot' = slot
    · rw [hslot, hself]
      exact ⟨rfl, rfl⟩
    · rw [hother hslot]
      exact .refl _
  · by_cases hslot : .output i = slot
    · rw [hslot, hself]
    · rw [hother hslot]
  · have hslot : .output i ≠ slot := by
      rintro rfl
      exact hx (hr.injective hi hs ▸ hy)
    rw [hother hslot]

end Registry.Alike

/-! ## Recording in either order -/

/-- What becomes of the value in a slot of the graph boundary when `v` is recorded in it. -/
def Value.settle (v : Value) : Slot → Value → Value
  | .output _ => fun w => { w.copyFrom v with used := true }
  | _ => (·.copyFrom v)

lemma Value.Same.settle (h : v.Same w) (slot : Slot) : (v.settle slot u).Same (w.settle slot u') := by
  cases slot <;> exact ⟨h.type, h.literal⟩

lemma Value.name_settle (slot : Slot) (w : Value) : (v.settle slot w).name = w.name := by
  cases slot <;> rfl

lemma Value.used_settle (slot : Slot) (h : u'.used = u.used) :
    (w.settle slot u').used = (v.settle slot u).used := by
  cases slot <;> first | rfl | exact h

lemma recordOne_eq_ok (hv : v.name ≠ "") : r.recordOne producer v = .ok r₁ ↔
    (r.slots.get? v.name = none ∧ v.name ∉ r.missed ∧ r₁ = r.addInterior v.name v) ∨
      ∃ slot, r.slots.get? v.name = some slot ∧ (∀ i, slot ≠ .interior i) ∧
        r₁ = r.modify (v.settle slot) slot := by
  constructor
  · intro h
    obtain h | ⟨i, hs, rfl⟩ | ⟨i, hs, rfl⟩ := recordOne_ok hv h
    · exact .inl h
    · exact .inr ⟨_, hs, by simp, rfl⟩
    · exact .inr ⟨_, hs, by simp, rfl⟩
  · rintro (⟨hs, hmissed, rfl⟩ | ⟨slot, hs, hinner, rfl⟩)
    · simp [recordOne, hv, hs, hmissed]
    · cases slot with
      | interior i => exact absurd rfl (hinner i)
      | input i => simp [recordOne, hv, hs, Value.settle]
      | output i => simp [recordOne, hv, hs, Value.settle]

lemma modify_comm (hne : slot ≠ slot') :
    (r.modify f slot).modify g slot' = (r.modify g slot').modify f slot := by
  have hlists : ∀ {i j : Nat} (vs : List Value), i ≠ j →
      (vs.modify i f).modify j g = (vs.modify j g).modify i f :=
    fun vs hij => List.modify_modify_ne f g vs hij
  cases slot with
  | input i =>
    cases slot' with
    | input j =>
      have hij : i ≠ j := fun e => hne (e ▸ rfl)
      simp only [Registry.modify, hlists r.inputs hij]
    | output j | interior j => rfl
  | output i =>
    cases slot' with
    | output j =>
      have hij : i ≠ j := fun e => hne (e ▸ rfl)
      simp only [Registry.modify, hlists r.outputs hij]
    | input j | interior j => rfl
  | interior i =>
    cases slot' with
    | interior j =>
      have hij : i ≠ j := fun e => hne (e ▸ rfl)
      simp only [Registry.modify, hlists r.interior hij]
    | input j | output j => rfl

lemma modify_addInterior (hinner : ∀ i, slot ≠ .interior i) :
    (r.addInterior x v).modify f slot = (r.modify f slot).addInterior x v := by
  cases slot with
  | interior i => exact absurd rfl (hinner i)
  | input i => rfl
  | output i => rfl

namespace Registry.Alike

/-- Two values that nodes have written are held in either order. -/
lemma of_addInterior (hr : r.Sound) (hne : x ≠ y) :
    Alike pending ((r.addInterior x v).addInterior y w) ((r.addInterior y w).addInterior x v) := by
  have hsound : ∀ {x y : String} {v w : Value}, ((r.addInterior x v).addInterior y w).Sound :=
    sound_addInterior (sound_addInterior hr)
  -- either value is found under its name, and under the other names nothing changes
  have hlast : ∀ {x y : String} {v w : Value}, ∃ i,
      ((r.addInterior x v).addInterior y w).slots.get? y = some (.interior i) ∧
        ((r.addInterior x v).addInterior y w).value (.interior i) = w := fun {x y v w} =>
    ⟨_, by rw [slots_addInterior, if_pos rfl], value_addInterior_last⟩
  have hfirst : ∀ {x y : String} {v w : Value}, x ≠ y → ∃ i,
      ((r.addInterior x v).addInterior y w).slots.get? x = some (.interior i) ∧
        ((r.addInterior x v).addInterior y w).value (.interior i) = v := by
    intro x y v w hne
    have hslot : (r.addInterior x v).slots.get? x = some (.interior r.interior.length) := by
      rw [slots_addInterior, if_pos rfl]
    refine ⟨r.interior.length, by rw [slots_addInterior, if_neg hne, hslot], ?_⟩
    rw [value_addInterior ((sound_addInterior hr).has hslot), value_addInterior_last]
  have hother : ∀ {x y z : String} {v w : Value}, z ≠ x → z ≠ y →
      ((r.addInterior x v).addInterior y w).slots.get? z = r.slots.get? z :=
    fun hx hy => by rw [slots_addInterior, if_neg hy, slots_addInterior, if_neg hx]
  have hvalue : ∀ {x y : String} {v w : Value} {slot}, r.Has slot →
      ((r.addInterior x v).addInterior y w).value slot = r.value slot :=
    fun h => by rw [value_addInterior (has_addInterior h), value_addInterior h]
  obtain ⟨i₁, hi₁, hv₁⟩ := hfirst (v := v) (w := w) hne
  obtain ⟨i₂, hi₂, hv₂⟩ := hlast (x := y) (y := x) (v := w) (w := v)
  obtain ⟨j₁, hj₁, hw₁⟩ := hlast (x := x) (y := y) (v := v) (w := w)
  obtain ⟨j₂, hj₂, hw₂⟩ := hfirst (v := w) (w := v) hne.symm
  refine ⟨hsound, fun z => ?_, rfl, List.Subset.refl _, fun i => ⟨⟨rfl, rfl⟩, rfl⟩,
    fun i => ⟨⟨rfl, rfl⟩, rfl⟩, fun z i j hi hj => ?_, fun z _ i _ => rfl⟩
  · by_cases hx : z = x
    · rw [hx, hi₁, hi₂]
      exact .some (.interior _ _)
    by_cases hy : z = y
    · rw [hy, hj₁, hj₂]
      exact .some (.interior _ _)
    rw [hother hx hy, hother hy hx]
    exact (refl hr : Alike pending r r).slots z
  · by_cases hx : z = x
    · rw [hx, hi₁] at hi
      rw [hx, hi₂] at hj
      rw [← Option.some.inj hi, ← Option.some.inj hj, hv₁, hv₂]
      exact .refl v
    by_cases hy : z = y
    · rw [hy, hj₁] at hi
      rw [hy, hj₂] at hj
      rw [← Option.some.inj hi, ← Option.some.inj hj, hw₁, hw₂]
      exact .refl w
    rw [hother hx hy] at hi
    rw [hother hy hx] at hj
    rw [hvalue (hr.has hi), hvalue (hr.has hj)]
    exact (refl hr : Alike pending r r).interior z i j hi hj

lemma addInterior (h : Alike pending r r₁) (hr : r.Sound) :
    Alike pending (r.addInterior x v) (r₁.addInterior x v) := by
  have hself : ∀ {r : Registry}, (r.addInterior x v).slots.get? x =
      some (.interior r.interior.length) := fun {r} => by rw [slots_addInterior, if_pos rfl]
  have hother : ∀ {r : Registry} {y : String}, y ≠ x →
      (r.addInterior x v).slots.get? y = r.slots.get? y :=
    fun hy => by rw [slots_addInterior, if_neg hy]
  refine ⟨sound_addInterior h.sound, fun y => ?_, h.initializers, h.missed, h.inputs, h.outputs,
    fun y i j hi hj => ?_, fun y hy i hi => ?_⟩
  · by_cases hyx : y = x
    · rw [hyx, hself, hself]
      exact .some (.interior _ _)
    · rw [hother hyx, hother hyx]
      exact h.slots y
  · by_cases hyx : y = x
    · rw [hyx, hself, Option.some.injEq] at hi hj
      rw [← hi, ← hj, value_addInterior_last, value_addInterior_last]
      exact .refl v
    · rw [hother hyx] at hi hj
      rw [value_addInterior (hr.has hi), value_addInterior (h.sound.has hj)]
      exact h.interior y i j hi hj
  · by_cases hyx : y = x
    · simp [hyx, hself] at hi
    · exact h.names y hy i (hother hyx ▸ hi)

lemma settle (h : Alike pending r r₁) (hr : r.Sound) (hs : r.slots.get? x = some slot)
    (hs₁ : r₁.slots.get? x = some slot) (hinner : ∀ i, slot ≠ .interior i) :
    Alike pending (r.modify (v.settle slot) slot) (r₁.modify (v.settle slot) slot) := by
  have hself := value_modify_self (v.settle slot) (hr.has hs)
  have hself₁ := value_modify_self (v.settle slot) (h.sound.has hs₁)
  have hother : ∀ {r : Registry} {slot'}, slot' ≠ slot →
      (r.modify (v.settle slot) slot).value slot' = r.value slot' := value_modify_of_ne _
  refine ⟨sound_modify _ h.sound, fun y => by simpa using h.slots y, by simpa using h.initializers,
    by simpa using h.missed, fun i => ?_, fun i => ?_, fun y i j hi hj => ?_, fun y hy i hi => ?_⟩
  · by_cases hslot : .input i = slot
    · rw [hslot, hself, hself₁, Value.name_settle, Value.name_settle, ← hslot]
      exact ⟨(Value.Same.refl v).settle _, (h.inputs i).2⟩
    · rw [hother hslot, hother hslot]
      exact h.inputs i
  · by_cases hslot : .output i = slot
    · subst hslot
      rw [hself, hself₁]
      exact ⟨(Value.Same.refl v).settle _, rfl⟩
    · rw [hother hslot, hother hslot]
      exact h.outputs i
  · rw [slots_modify] at hi hj
    rw [hother (hinner i).symm, hother (hinner j).symm]
    exact h.interior y i j hi hj
  · rw [slots_modify] at hi
    by_cases hslot : .output i = slot
    · rw [hslot, hself, hself₁, Value.name_settle, Value.name_settle, ← hslot]
      exact h.names y hy i hi
    · rw [hother hslot, hother hslot]
      exact h.names y hy i hi

/-- What is recorded in one of two registries that tell the same is recorded in the other. -/
lemma recordOne (h : Alike pending r r₁) (hr : r.Sound) (hv : r₁.recordOne producer v = .ok r₂) :
    ∃ q, r.recordOne producer v = .ok q ∧ Alike pending q r₂ := by
  by_cases hne : v.name = ""
  · obtain rfl : r₁ = r₂ := by simpa [Registry.recordOne, hne] using hv
    exact ⟨r, by simp [Registry.recordOne, hne], h⟩
  rw [recordOne_eq_ok hne] at hv
  obtain ⟨hs, hmissed, rfl⟩ | ⟨slot, hs₁, hinner, rfl⟩ := hv
  · exact ⟨_, (recordOne_eq_ok hne).mpr
      (.inl ⟨h.slots_none.mp hs, mt (@h.missed _) hmissed, rfl⟩), h.addInterior hr⟩
  · have hs := (h.slots_outer hinner).mp hs₁
    exact ⟨_, (recordOne_eq_ok hne).mpr (.inr ⟨slot, hs, hinner, rfl⟩), h.settle hr hs hs₁ hinner⟩

/-- Outputs that are not still to be written may get other names. -/
lemma of_renameOutputs {number : Nat} (hr : r.Sound)
    (hvs : ∀ v ∈ vs, v.name ≠ "" → v.name ∉ pending)
    (h : ImportState.renameOutputs n r number vs = .ok (r₁, ws)) : Alike pending r r₁ :=
  renameOutputs_invariant (fun hv hne hrename (h : Alike pending r _) =>
    h.trans (of_rename h.sound (hvs _ hv hne) hrename)) h (refl hr)

/-- A node that names its operands and its outputs changes nothing that matters, if these are not
written again. -/
lemma of_named {number : Nat} (hr : r.Sound) (hvs : ∀ v ∈ vs, v.name ≠ "" → v.name ∉ pending)
    (inputs : ImportState.renameInputs r us = .ok (r₁, us'))
    (outputs : ImportState.renameOutputs n r₁ number vs = .ok (r₂, ws)) : Alike pending r r₂ := by
  have hmarked := (renameInputs_ok hr inputs).1
  exact (of_marked hr hmarked).trans (of_renameOutputs (hmarked.sound hr) hvs outputs)

end Registry.Alike

/-- Values of different names are recorded in either order. -/
theorem recordOne_swap (hr : r.Sound) (hne : v.name ≠ "" → v.name ≠ w.name)
    (hw : r.recordOne producer w = .ok r₁) (hv : r₁.recordOne producer' v = .ok r₂) :
    ∃ q q', r.recordOne producer' v = .ok q ∧ q.recordOne producer w = .ok q' ∧
      Alike pending q' r₂ := by
  by_cases hwe : w.name = ""
  · obtain rfl : r = r₁ := by simpa [recordOne, hwe] using hw
    exact ⟨r₂, r₂, hv, by simp [recordOne, hwe], .refl (recordOne_grows hr hv).sound⟩
  by_cases hve : v.name = ""
  · obtain rfl : r₁ = r₂ := by simpa [recordOne, hve] using hv
    exact ⟨r, r₁, by simp [recordOne, hve], hw, .refl (recordOne_grows hr hw).sound⟩
  replace hne := hne hve
  rw [recordOne_eq_ok hwe] at hw
  rw [recordOne_eq_ok hve] at hv
  obtain ⟨hsw, hmw, rfl⟩ | ⟨slot, hsw, hinner, rfl⟩ := hw
  · rw [slots_addInterior, if_neg hne] at hv
    obtain ⟨hsv, hmv, rfl⟩ | ⟨slot', hsv, hinner', rfl⟩ := hv
    · refine ⟨_, _, (recordOne_eq_ok hve).mpr (.inl ⟨hsv, hmv, rfl⟩),
        (recordOne_eq_ok hwe).mpr (.inl ⟨?_, hmw, rfl⟩), .of_addInterior hr hne⟩
      rw [slots_addInterior, if_neg hne.symm, hsw]
    · refine ⟨_, _, (recordOne_eq_ok hve).mpr (.inr ⟨slot', hsv, hinner', rfl⟩),
        (recordOne_eq_ok hwe).mpr (.inl ⟨?_, ?_, rfl⟩), ?_⟩
      · rw [slots_modify, hsw]
      · rwa [missed_modify]
      · rw [modify_addInterior hinner']
        exact .refl (sound_addInterior (sound_modify _ hr))
  · rw [slots_modify, missed_modify] at hv
    obtain ⟨hsv, hmv, rfl⟩ | ⟨slot', hsv, hinner', rfl⟩ := hv
    · refine ⟨_, _, (recordOne_eq_ok hve).mpr (.inl ⟨hsv, hmv, rfl⟩),
        (recordOne_eq_ok hwe).mpr (.inr ⟨slot, ?_, hinner, rfl⟩), ?_⟩
      · rw [slots_addInterior, if_neg hne.symm, hsw]
      · rw [modify_addInterior hinner]
        exact .refl (sound_addInterior (sound_modify _ hr))
    · have hslots : slot ≠ slot' := fun e => hne (hr.injective hsv (e ▸ hsw))
      refine ⟨_, _, (recordOne_eq_ok hve).mpr (.inr ⟨slot', hsv, hinner', rfl⟩),
        (recordOne_eq_ok hwe).mpr (.inr ⟨slot, ?_, hinner, rfl⟩), ?_⟩
      · rw [slots_modify, hsw]
      · rw [modify_comm hslots]
        exact .refl (sound_modify _ (sound_modify _ hr))

end TensorGraph
