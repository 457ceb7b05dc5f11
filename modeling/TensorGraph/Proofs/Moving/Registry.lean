import TensorGraph.Proofs.Moving.Reordering

/-!
# Registries with an array moved into a Constant

Two registries that differ in that an array of the file, known to the one, is what a Constant has
written to the other (`Registry.Moved`). The other may hold values besides that the one has lost. Every
operation of a registry keeps this.
-/

namespace TensorGraph

open Onnx Registry

/-- The array `a` is known to the registry `r`, and what a Constant has written to `r'`. Otherwise
they hold the same, under names that may differ but for those of graph outputs that are still to be
written. `outer` tells the places of graph outputs by their names. Of what `r` has lost, `gone` tells
the types that it has in `r'`. -/
structure Registry.Moved (a : Value) (outer : String → Option Nat) (gone : String → Option ValueType)
    (pending : List String) (r r' : Registry) : Prop where
  sound : r.Sound
  sound' : r'.Sound
  slots : ∀ x, x ≠ a.name → gone x = none → Option.Rel Slot.Like (r.slots.get? x) (r'.slots.get? x)
  lost : ∀ x t, gone x = some t → r.slots.get? x = none ∧
    ∃ i, r'.slots.get? x = some (.interior i) ∧ (r'.value (.interior i)).type = t
  fresh : ∀ x ∈ pending, gone x = none
  own : (r.slots.get? a.name = none ∧ ∃ i, r'.slots.get? a.name = some (.interior i)) ∨
    ∃ i, r.slots.get? a.name = some (.output i) ∧ r'.slots.get? a.name = some (.output i)
  outer : ∀ x i, r.slots.get? x = some (.output i) ↔ outer x = some i
  array : r.initializers.get? a.name = some a
  arrays : ∀ x, x ≠ a.name → r'.initializers.get? x = r.initializers.get? x
  arrays_name : ∀ x v, r.initializers.get? x = some v → v.name = x
  inputs : ∀ i, (r.value (.input i)).Same (r'.value (.input i)) ∧
    (r'.value (.input i)).name = (r.value (.input i)).name
  outputs : ∀ i, r.slots.get? a.name ≠ some (.output i) →
    (r.value (.output i)).Same (r'.value (.output i)) ∧
      (r'.value (.output i)).used = (r.value (.output i)).used
  interior : ∀ x i j, x ≠ a.name → r.slots.get? x = some (.interior i) →
    r'.slots.get? x = some (.interior j) → (r.value (.interior i)).Same (r'.value (.interior j))
  bare : ∀ i, r'.slots.get? a.name = some (.interior i) →
    (r'.value (.interior i)).type = a.type ∧ (r'.value (.interior i)).literal = none
  names : ∀ x ∈ pending, ∀ i, r.slots.get? x = some (.output i) →
    (r'.value (.output i)).name = (r.value (.output i)).name

variable {a : Value} {outer : String → Option Nat} {gone : String → Option ValueType}
  {pending pending' : List String} {r r' r₁ r₁' : Registry} {v w : Value} {vs ws : List Value}
  {x y producer producer' new new' : String} {slot slot' : Slot} {f f' : Value → Value} {i : Nat}

lemma Slot.Like.ne_input (h : slot.Like slot') (hi : .input i ≠ slot) : .input i ≠ slot' := by
  rintro rfl
  cases h
  exact hi rfl

lemma Slot.Like.ne_output (h : slot.Like slot') (hi : .output i ≠ slot) : .output i ≠ slot' := by
  rintro rfl
  cases h
  exact hi rfl

namespace Registry.Moved

lemma mono (h : r.Moved a outer gone pending r') (hsub : pending' ⊆ pending) :
    r.Moved a outer gone pending' r' :=
  { h with
    fresh := fun x hx => h.fresh x (hsub hx)
    names := fun x hx => h.names x (hsub hx) }

/-- Nothing is lost that the one registry holds. -/
lemma gone_eq_none (h : r.Moved a outer gone pending r') (hs : r.slots.get? x = some slot) :
    gone x = none := by
  cases hx : gone x with
  | none => rfl
  | some t => simp [(h.lost x t hx).1] at hs

/-- Under a name that is neither lost nor that of the array, both registries have nothing or slots of
one kind. -/
lemma slots_cases (h : r.Moved a outer gone pending r') (hx : x ≠ a.name) (hgone : gone x = none) :
    (r.slots.get? x = none ∧ r'.slots.get? x = none) ∨ ∃ slot slot',
      r.slots.get? x = some slot ∧ r'.slots.get? x = some slot' ∧ slot.Like slot' := by
  have hslots := h.slots x hx hgone
  generalize r.slots.get? x = slot, r'.slots.get? x = slot' at hslots ⊢
  cases hslots with
  | none => exact .inl ⟨rfl, rfl⟩
  | some like => exact .inr ⟨_, _, rfl, rfl, like⟩

lemma of_none (h : r.Moved a outer gone pending r') (hs : r.slots.get? x = none) :
    (x ≠ a.name ∧ gone x = none ∧ r'.slots.get? x = none) ∨
      ∃ i, r'.slots.get? x = some (.interior i) := by
  cases hgone : gone x with
  | some t =>
    obtain ⟨-, i, hi, -⟩ := h.lost x t hgone
    exact .inr ⟨i, hi⟩
  | none =>
    by_cases hx : x = a.name
    · subst hx
      rcases h.own with ⟨-, hi⟩ | ⟨i, hi, -⟩
      · exact .inr hi
      · simp [hs] at hi
    · rcases h.slots_cases hx hgone with ⟨-, hs'⟩ | ⟨slot, -, hslot, -⟩
      · exact .inl ⟨hx, rfl, hs'⟩
      · simp [hs] at hslot

lemma of_some (h : r.Moved a outer gone pending r') (hs : r.slots.get? x = some slot) :
    ∃ slot', r'.slots.get? x = some slot' ∧ slot.Like slot' := by
  by_cases hx : x = a.name
  · subst hx
    rcases h.own with ⟨hnone, -⟩ | ⟨i, hi, hi'⟩
    · simp [hnone] at hs
    · rw [hi, Option.some.injEq] at hs
      exact ⟨_, hi', hs ▸ .output i⟩
  · rcases h.slots_cases hx (h.gone_eq_none hs) with ⟨hnone, -⟩ | ⟨slot, slot', hslot, hs', like⟩
    · simp [hs] at hnone
    · rw [hs, Option.some.injEq] at hslot
      exact ⟨slot', hs', hslot ▸ like⟩

lemma like (h : r.Moved a outer gone pending r') (hs : r.slots.get? x = some slot)
    (hs' : r'.slots.get? x = some slot') : slot.Like slot' := by
  obtain ⟨slot₁, hs₁, like⟩ := h.of_some hs
  obtain rfl := Option.some.inj (hs'.symm.trans hs₁)
  exact like

lemma isOutput (h : r.Moved a outer gone pending r') (x : String) :
    r.isOutput x = (outer x).isSome ∧ r'.isOutput x = (outer x).isSome := by
  have hleft : r.isOutput x = (outer x).isSome := by
    rw [Bool.eq_iff_iff, isOutput_eq_true, Option.isSome_iff_exists]
    exact exists_congr (h.outer x)
  refine ⟨hleft, ?_⟩
  rw [← hleft, Bool.eq_iff_iff, isOutput_eq_true, isOutput_eq_true]
  constructor
  · rintro ⟨i, hi⟩
    cases hs : r.slots.get? x with
    | none =>
      rcases h.of_none hs with ⟨-, -, hnone⟩ | ⟨j, hj⟩
      · simp [hnone] at hi
      · simp [hj] at hi
    | some slot =>
      cases h.like hs hi
      exact ⟨i, rfl⟩
  · rintro ⟨i, hi⟩
    obtain ⟨slot', hs', hlike⟩ := h.of_some hi
    cases hlike
    exact ⟨i, hs'⟩

end Registry.Moved

/-- What the registries give for one name: the same, but that the array is a literal only in the
one. -/
structure Value.Reads (a : Value) (outer : String → Option Nat) (v w : Value) : Prop where
  name : w.name = v.name
  type : w.type = v.type
  literal : v.name ≠ a.name → w.literal = v.literal
  own : v.name = a.name → a.Same v ∧ w.literal = none
  inner : v.name = "" ∨ outer v.name = none

namespace Registry.Moved

lemma resolve (h : r.Moved a outer gone pending r') (ha : a.name ≠ "") (hgone : gone x = none) :
    Agree (fun v w => v.name = x ∧ Value.Reads a outer v w) (r.resolve x) (r'.resolve x) := by
  unfold Registry.resolve
  by_cases hx : x = ""
  · simp only [hx, if_true]
    exact .ok ⟨rfl, rfl, rfl, fun _ => rfl, fun e => absurd e.symm ha, .inl rfl⟩
  have houter : ∀ {slot}, r.slots.get? x = slot → (∀ i, slot ≠ some (.output i)) →
      outer x = none := by
    rintro slot hs hne
    rw [Option.eq_none_iff_forall_not_mem]
    exact fun i hi => hne i (hs ▸ (h.outer x i).mpr hi)
  simp only [hx, if_false]
  by_cases hxa : x = a.name
  · subst hxa
    rcases h.own with ⟨hs, i, hs'⟩ | ⟨i, hs, hs'⟩
    · simp only [hs, hs', h.array, Option.getD_some]
      obtain ⟨htype, hlit⟩ := h.bare i hs'
      exact .ok ⟨rfl, rfl, htype, fun e => absurd rfl e, fun _ => ⟨.refl a, hlit⟩,
        .inr (houter hs (by simp))⟩
    · simp only [hs, hs']
      exact .error (Error.alike_naming _ _)
  · rcases h.slots_cases hxa hgone with ⟨hs, hs'⟩ | ⟨slot, slot', hs, hs', hlike⟩
    · simp only [hs, hs', h.arrays x hxa]
      have hname : ((r.initializers.get? x).getD { name := x }).name = x := by
        cases hv : r.initializers.get? x with
        | none => rfl
        | some v => exact h.arrays_name x v hv
      exact .ok ⟨hname, rfl, rfl, fun _ => rfl, fun e => absurd (hname.symm.trans e) hxa,
        .inr (hname.symm ▸ houter hs (by simp) : outer _ = none)⟩
    · simp only [hs, hs']
      cases hlike with
      | output i => exact .error (Error.alike_naming _ _)
      | input i =>
        have hsame := (h.inputs i).1
        exact .ok ⟨rfl, rfl, hsame.type, fun _ => hsame.literal, fun e => absurd e hxa,
          .inr (houter hs (by simp))⟩
      | interior i j =>
        have hsame := h.interior x i j hxa hs hs'
        exact .ok ⟨rfl, rfl, hsame.type, fun _ => hsame.literal, fun e => absurd e hxa,
          .inr (houter hs (by simp))⟩

/-- What a registry gives for a name bears it. -/
lemma name_resolve (h : r.Moved a outer gone pending r') :
    (∀ x v, r.resolve x = .ok v → v.name = x) ∧ ∀ x w, r'.resolve x = .ok w → w.name = x := by
  refine ⟨fun x _ => name_of_resolve fun u _ => h.arrays_name x u,
    fun x _ => name_of_resolve fun u hs hu => ?_⟩
  by_cases hxa : x = a.name
  · subst hxa
    rcases h.own with ⟨-, i, hi⟩ | ⟨i, -, hi⟩ <;> simp [hs] at hi
  · exact h.arrays_name x u (h.arrays x hxa ▸ hu)

/-- The boundary under a name that is still to be written. -/
lemma boundary? (h : r.Moved a outer gone pending r') (hxa : x ≠ a.name) (hx : x ∈ pending) :
    Agree (Option.Rel fun v w => v.Same w ∧ w.name = v.name) (r.boundary? x)
      (r'.boundary? x) := by
  unfold Registry.boundary?
  rcases h.slots_cases hxa (h.fresh x hx) with ⟨hs, hs'⟩ | ⟨slot, slot', hs, hs', hlike⟩
  · simp only [hs, hs']
    exact .ok .none
  · simp only [hs, hs']
    cases hlike with
    | interior i j => exact .error (Error.alike_naming _ _)
    | input i => exact .ok (.some (h.inputs i))
    | output i =>
      have hne : r.slots.get? a.name ≠ some (.output i) := fun e => hxa (h.sound.injective hs e)
      exact .ok (.some ⟨(h.outputs i hne).1, h.names x hx i hs⟩)

/-! ## Writing -/

/-- A value changes under one name. Where it is a graph output that is still to be written, it gets
the same name in both. -/
lemma modify (h : r.Moved a outer gone pending r') (hs : r.slots.get? x = some slot)
    (hs' : r'.slots.get? x = some slot') (hsame : ∀ v w, v.Same w → (f v).Same (f' w))
    (hused : ∀ v w, w.used = v.used → (f' w).used = (f v).used)
    (hname : (∀ v w, w.name = v.name → (f' w).name = (f v).name) ∨
      (∀ i, slot ≠ .input i) ∧ x ∉ pending) :
    (r.modify f slot).Moved a outer gone pending (r'.modify f' slot') := by
  have hlike := h.like hs hs'
  have hself := value_modify_self f (h.sound.has hs)
  have hself' := value_modify_self f' (h.sound'.has hs')
  exact {
    sound := sound_modify f h.sound
    sound' := sound_modify f' h.sound'
    slots := fun y hy hgone => by
      rw [slots_modify, slots_modify]
      exact h.slots y hy hgone
    lost := fun y t hy => by
      obtain ⟨hnone, i, hi, htype⟩ := h.lost y t hy
      have hne : .interior i ≠ slot' := fun e => by
        rw [h.sound'.injective hi (e ▸ hs'), hs] at hnone
        cases hnone
      rw [slots_modify, slots_modify]
      exact ⟨hnone, i, hi, by rw [value_modify_of_ne f' hne, htype]⟩
    fresh := h.fresh
    own := by
      rw [slots_modify, slots_modify]
      exact h.own
    outer := fun y i => by
      rw [slots_modify]
      exact h.outer y i
    array := by rw [initializers_modify, h.array]
    arrays := fun y hy => by rw [initializers_modify, initializers_modify, h.arrays y hy]
    arrays_name := by
      rw [initializers_modify]
      exact h.arrays_name
    inputs := fun i => by
      by_cases hi : .input i = slot
      · subst hi
        cases hlike
        rw [hself, hself']
        refine ⟨hsame _ _ (h.inputs i).1, ?_⟩
        rcases hname with hname | ⟨hin, -⟩
        · exact hname _ _ (h.inputs i).2
        · exact absurd rfl (hin i)
      · rw [value_modify_of_ne f hi, value_modify_of_ne f' (hlike.ne_input hi)]
        exact h.inputs i
    outputs := fun i hne => by
      rw [slots_modify] at hne
      by_cases hi : .output i = slot
      · subst hi
        cases hlike
        rw [hself, hself']
        exact ⟨hsame _ _ (h.outputs i hne).1, hused _ _ (h.outputs i hne).2⟩
      · rw [value_modify_of_ne f hi, value_modify_of_ne f' (hlike.ne_output hi)]
        exact h.outputs i hne
    interior := fun y i j hy hi hj => by
      rw [slots_modify] at hi hj
      by_cases hyx : y = x
      · subst hyx
        obtain rfl : slot = .interior i := by simpa [hs] using hi
        obtain rfl : slot' = .interior j := by simpa [hs'] using hj
        rw [hself, hself']
        exact hsame _ _ (h.interior y i j hy hi hj)
      · have hne : .interior i ≠ slot := fun e => hyx (h.sound.injective hi (e ▸ hs))
        have hne' : .interior j ≠ slot' := fun e => hyx (h.sound'.injective hj (e ▸ hs'))
        rw [value_modify_of_ne f hne, value_modify_of_ne f' hne']
        exact h.interior y i j hy hi hj
    bare := fun i hi => by
      rw [slots_modify] at hi
      have hne : .interior i ≠ slot' := by
        rintro rfl
        obtain rfl : a.name = x := h.sound'.injective hi hs'
        rcases h.own with ⟨hnone, -⟩ | ⟨j, -, hj⟩
        · simp [hnone] at hs
        · simp [hj] at hi
      rw [value_modify_of_ne f' hne]
      exact h.bare i hi
    names := fun y hy i hi => by
      rw [slots_modify] at hi
      by_cases hyx : y = x
      · subst hyx
        obtain rfl : slot = .output i := by simpa [hs] using hi
        cases hlike
        rw [hself, hself']
        rcases hname with hname | ⟨-, hx⟩
        · exact hname _ _ (h.names y hy i hi)
        · exact absurd hy hx
      · have hne : .output i ≠ slot := fun e => hyx (h.sound.injective hi (e ▸ hs))
        rw [value_modify_of_ne f hne, value_modify_of_ne f' (hlike.ne_output hne)]
        exact h.names y hy i hi }

/-- A value is added under another name than that of the array. -/
lemma addInterior (h : r.Moved a outer gone pending r') (hx : x ≠ a.name) (hgone : gone x = none)
    (hs : r.slots.get? x = none) (hvw : v.Same w) :
    (r.addInterior x v).Moved a outer gone pending (r'.addInterior x w) := by
  have hslots : ∀ {r : Registry} {v : Value} {y : String}, y ≠ x →
      (r.addInterior x v).slots.get? y = r.slots.get? y := fun hy => by
    rw [slots_addInterior, if_neg hy]
  have hself : ∀ {r : Registry} {v : Value},
      (r.addInterior x v).slots.get? x = some (.interior r.interior.length) := by
    intro r v
    rw [slots_addInterior, if_pos rfl]
  exact {
    sound := sound_addInterior h.sound
    sound' := sound_addInterior h.sound'
    slots := fun y hy hgone => by
      by_cases hyx : y = x
      · subst hyx
        rw [hself, hself]
        exact .some (.interior _ _)
      · rw [hslots hyx, hslots hyx]
        exact h.slots y hy hgone
    lost := fun y t hy => by
      obtain ⟨hnone, i, hi, htype⟩ := h.lost y t hy
      have hyx : y ≠ x := by
        rintro rfl
        simp [hgone] at hy
      rw [hslots hyx, hslots hyx]
      exact ⟨hnone, i, hi, by rw [value_addInterior (h.sound'.has hi), htype]⟩
    fresh := h.fresh
    own := by
      rw [hslots hx.symm, hslots hx.symm]
      exact h.own
    outer := fun y i => by
      rw [← h.outer]
      by_cases hyx : y = x
      · subst hyx
        simp [hself, hs]
      · rw [hslots hyx]
    array := h.array
    arrays := h.arrays
    arrays_name := h.arrays_name
    inputs := h.inputs
    outputs := fun i hi => h.outputs i (hslots hx.symm ▸ hi)
    interior := fun y i j hy hi hj => by
      by_cases hyx : y = x
      · subst hyx
        rw [hself, Option.some.injEq] at hi hj
        rw [← hi, ← hj, value_addInterior_last, value_addInterior_last]
        exact hvw
      · rw [hslots hyx] at hi hj
        rw [value_addInterior (h.sound.has hi), value_addInterior (h.sound'.has hj)]
        exact h.interior y i j hy hi hj
    bare := fun i hi => by
      rw [hslots hx.symm] at hi
      rw [value_addInterior (h.sound'.has hi)]
      exact h.bare i hi
    names := fun y hy i hi => by
      by_cases hyx : y = x
      · subst hyx
        simp [hself] at hi
      · exact h.names y hy i (hslots hyx ▸ hi) }

/-- What the registries know does not depend on where they hold what nodes have written, nor on the new
names of what is not written again. -/
lemma congr (h : r.Moved a outer gone pending r') (hr : Alike pending r r₁)
    (hr' : Alike pending r' r₁') : r₁.Moved a outer gone pending r₁' where
  sound := hr.sound
  sound' := hr'.sound
  slots x hx hgone := by
    have hslots := h.slots x hx hgone
    have hleft := hr.slots x
    have hright := hr'.slots x
    generalize r.slots.get? x = slot, r'.slots.get? x = slot', r₁.slots.get? x = slot₁,
      r₁'.slots.get? x = slot₁' at hslots hleft hright ⊢
    cases hslots with
    | none =>
      cases hleft
      cases hright
      exact .none
    | some like =>
      cases hleft with
      | some left =>
        cases hright with
        | some right => exact .some ((left.symm.trans like).trans right)
  lost x t hx := by
    obtain ⟨hnone, i, hi, htype⟩ := h.lost x t hx
    obtain ⟨j, hj⟩ := hr'.slots_interior.mpr ⟨i, hi⟩
    exact ⟨hr.slots_none.mpr hnone, j, hj, (hr'.interior x i j hi hj).type.trans htype⟩
  fresh := h.fresh
  own := h.own.imp (fun ⟨hnone, hi⟩ => ⟨hr.slots_none.mpr hnone, hr'.slots_interior.mpr hi⟩)
    fun ⟨i, hi, hi'⟩ => ⟨i, hr.slots_output.mpr hi, hr'.slots_output.mpr hi'⟩
  outer x i := hr.slots_output.trans (h.outer x i)
  array := by rw [hr.initializers, h.array]
  arrays x hx := by rw [hr.initializers, hr'.initializers, h.arrays x hx]
  arrays_name := by
    rw [hr.initializers]
    exact h.arrays_name
  inputs i := ⟨((hr.inputs i).1.symm.trans (h.inputs i).1).trans (hr'.inputs i).1,
    by rw [(hr'.inputs i).2, (h.inputs i).2, (hr.inputs i).2]⟩
  outputs i hi := by
    have hout := h.outputs i (mt hr.slots_output.mpr hi)
    exact ⟨((hr.outputs i).1.symm.trans hout.1).trans (hr'.outputs i).1,
      by rw [(hr'.outputs i).2, hout.2, (hr.outputs i).2]⟩
  interior x i j hx hi hj := by
    obtain ⟨i₀, hi₀⟩ := hr.slots_interior.mp ⟨i, hi⟩
    obtain ⟨j₀, hj₀⟩ := hr'.slots_interior.mp ⟨j, hj⟩
    exact ((hr.interior x i₀ i hi₀ hi).symm.trans (h.interior x i₀ j₀ hx hi₀ hj₀)).trans
      (hr'.interior x j₀ j hj₀ hj)
  bare i hi := by
    obtain ⟨j, hj⟩ := hr'.slots_interior.mp ⟨i, hi⟩
    have hsame := hr'.interior a.name j i hj hi
    exact (h.bare j hj).imp hsame.type.trans hsame.literal.trans
  names x hx i hi := by
    have hi₀ := hr.slots_output.mp hi
    obtain ⟨_, hi', like⟩ := h.of_some hi₀
    cases like
    rw [hr'.names x hx i hi', h.names x hx i hi₀, hr.names x hx i hi₀]

/-- Marking what is read changes nothing that matters. -/
lemma marked (h : r.Moved a outer gone pending r') (hm : Marked r r₁) (hm' : Marked r' r₁') :
    r₁.Moved a outer gone pending r₁' :=
  h.congr (.of_marked h.sound hm) (.of_marked h.sound' hm')

/-- A value that only the other registry holds is added to it, under a name that is not to be written
again. -/
lemma addLost (h : r.Moved a outer gone pending r') (hxa : x ≠ a.name) (hgone : gone x = none)
    (hs : r.slots.get? x = none) (hx : x ∉ pending) :
    r.Moved a outer (Function.update gone x (some w.type)) pending (r'.addInterior x w) := by
  have hslots : ∀ {y : String}, y ≠ x → (r'.addInterior x w).slots.get? y = r'.slots.get? y :=
    fun hy => by rw [slots_addInterior, if_neg hy]
  exact {
    sound := h.sound
    sound' := sound_addInterior h.sound'
    slots := fun y hy hne => by
      have hyx : y ≠ x := by
        rintro rfl
        simp at hne
      rw [Function.update_of_ne hyx] at hne
      rw [hslots hyx]
      exact h.slots y hy hne
    lost := fun y t hy => by
      by_cases hyx : y = x
      · subst hyx
        rw [Function.update_self, Option.some.injEq] at hy
        refine ⟨hs, _, by rw [slots_addInterior, if_pos rfl], ?_⟩
        rw [value_addInterior_last, hy]
      · rw [Function.update_of_ne hyx] at hy
        obtain ⟨hnone, i, hi, htype⟩ := h.lost y t hy
        exact ⟨hnone, i, by rw [hslots hyx, hi], by rw [value_addInterior (h.sound'.has hi), htype]⟩
    fresh := fun y hy => by
      have hyx : y ≠ x := fun e => hx (e ▸ hy)
      rw [Function.update_of_ne hyx]
      exact h.fresh y hy
    own := by
      rw [hslots hxa.symm]
      exact h.own
    outer := h.outer
    array := h.array
    arrays := h.arrays
    arrays_name := h.arrays_name
    inputs := h.inputs
    outputs := h.outputs
    interior := fun y i j hy hi hj => by
      have hyx : y ≠ x := by
        rintro rfl
        simp [hs] at hi
      rw [hslots hyx] at hj
      rw [value_addInterior (h.sound'.has hj)]
      exact h.interior y i j hy hi hj
    bare := fun i hi => by
      rw [hslots hxa.symm] at hi
      rw [value_addInterior (h.sound'.has hi)]
      exact h.bare i hi
    names := h.names }

lemma recordOne (h : r.Moved a outer gone pending r') (hvw : v.Same w) (hn : w.name = v.name)
    (h₁ : r.recordOne producer v = .ok r₁) (h₁' : r'.recordOne producer' w = .ok r₁') :
    r₁.Moved a outer gone pending r₁' := by
  by_cases hv : v.name = ""
  · simp only [Registry.recordOne, hv, hn, if_true, Except.ok.injEq] at h₁ h₁'
    rwa [← h₁, ← h₁']
  rw [recordOne_eq_ok hv] at h₁
  rw [recordOne_eq_ok (hn ▸ hv), hn] at h₁'
  obtain ⟨hs, -, rfl⟩ | ⟨slot, hs, hinner, rfl⟩ := h₁
  · rcases h.of_none hs with ⟨hxa, hgone, hnone⟩ | ⟨i, hi⟩
    · obtain ⟨-, -, rfl⟩ | ⟨_, hs', -⟩ := h₁'
      · exact h.addInterior hxa hgone hs hvw
      · simp [hnone] at hs'
    · obtain ⟨hs', -⟩ | ⟨_, hs', hinner, -⟩ := h₁'
      · simp [hi] at hs'
      · exact absurd (Option.some.inj (hs'.symm.trans hi)) (hinner i)
  · obtain ⟨slot', hslot, like⟩ := h.of_some hs
    obtain rfl := like.eq_of_outer hinner
    obtain ⟨hs', -⟩ | ⟨_, hs', -, rfl⟩ := h₁'
    · simp [hslot] at hs'
    obtain rfl := Option.some.inj (hslot.symm.trans hs')
    refine h.modify hs hs' (fun _ _ _ => hvw.settle slot') (fun _ _ => Value.used_settle slot')
      (.inl fun _ _ hname => ?_)
    rw [Value.name_settle, Value.name_settle, hname]

/-- The values of a node are recorded alike. -/
lemma record (h : r.Moved a outer gone pending r')
    (hvs : List.Forall₂ (fun v w => v.Same w ∧ w.name = v.name) vs ws)
    (h₁ : r.record producer vs = (r₁, .ok ())) (h₁' : r'.record producer' ws = (r₁', .ok ())) :
    r₁.Moved a outer gone pending r₁' := by
  induction hvs generalizing r r' with
  | nil =>
    obtain rfl : r = r₁ := by simpa [Registry.record] using h₁
    obtain rfl : r' = r₁' := by simpa [Registry.record] using h₁'
    exact h
  | cons hvw _ ih =>
    obtain ⟨r₂, h₂, h₁⟩ := record_cons_ok h₁
    obtain ⟨r₂', h₂', h₁'⟩ := record_cons_ok h₁'
    exact ih (h.recordOne hvw.1 hvw.2 h₂ h₂') h₁ h₁'

/-- What only the other run records is lost to the one. -/
lemma recordLost (h : r.Moved a outer gone pending r') (hxa : w.name ≠ a.name)
    (hgone : gone w.name = none) (hs : r.slots.get? w.name = none) (hx : w.name ∉ pending)
    (hw : w.name ≠ "") (h₁' : r'.recordOne producer w = .ok r₁') :
    r.Moved a outer (Function.update gone w.name (some w.type)) pending r₁' := by
  obtain ⟨-, hs'⟩ | ⟨slot, -, hslot, -⟩ := h.slots_cases hxa hgone
  swap
  · simp [hs] at hslot
  obtain ⟨-, -, rfl⟩ | ⟨i, hi, -⟩ | ⟨i, hi, -⟩ := recordOne_ok hw h₁'
  · exact h.addLost hxa hgone hs hx
  · simp [hs'] at hi
  · simp [hs'] at hi

/-- A value gets its final name. -/
lemma rename (h : r.Moved a outer gone pending r') (hnew : new' = new ∨ x ∉ pending)
    (h₁ : r.rename x new = .ok r₁) (h₁' : r'.rename x new' = .ok r₁') :
    r₁.Moved a outer gone pending r₁' := by
  obtain ⟨slot, hs, hin, rfl⟩ := rename_ok h₁
  obtain ⟨slot', hs', -, rfl⟩ := rename_ok h₁'
  exact h.modify hs hs' (fun v w hvw => ⟨hvw.type, hvw.literal⟩) (fun v w hused => hused)
    (hnew.imp (fun e v w _ => e) fun hx => ⟨hin, hx⟩)

/-- The output of a Constant or of an identity, which is registered under its own name, gets its
final name. -/
lemma insertOrRename (h : r.Moved a outer gone pending r') (hn : w.name = v.name) (hx : v.name ∉ pending)
    (hs : r.slots.get? v.name = some slot)
    (hname : ∀ i, slot = .interior i → (r.value slot).name = v.name)
    (hname' : ∀ i, r'.slots.get? v.name = some (.interior i) →
      (r'.value (.interior i)).name = v.name)
    (h₁ : r.insertOrRename v new = .ok r₁) (h₁' : r'.insertOrRename w new' = .ok r₁') :
    r₁.Moved a outer gone pending r₁' := by
  obtain ⟨slot', hs', -⟩ := h.of_some hs
  obtain ⟨hin, rfl⟩ := insertOrRename_ok hs hname h₁
  have hs'' : r'.slots.get? w.name = some slot' := hn ▸ hs'
  obtain ⟨-, rfl⟩ := insertOrRename_ok hs'' (by rintro i rfl; rw [hn]; exact hname' i hs') h₁'
  exact h.modify hs hs' (fun v w hvw => ⟨hvw.type, hvw.literal⟩) (fun v w hused => hused)
    (.inr ⟨hin, hx⟩)

end Registry.Moved

end TensorGraph
