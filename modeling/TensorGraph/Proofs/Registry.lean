import Mathlib.Data.List.Basic
import TensorGraph.Proofs.Checked
import TensorGraph.Registry

/-!
# What a registry holds under each name

A registry is seen through `Registry.find?`, the value that it holds under a name. In a sound
registry no two names share a slot, so an operation on one name leaves what is held under all
others (`find?_modify_of_ne`, `find?_addInterior_of_ne`). Every operation keeps soundness.
-/

namespace TensorGraph.Registry

open Onnx

/-- Whether the registry has a value at the slot. -/
def Has (r : Registry) : Slot → Prop
  | .input i => i < r.inputs.length
  | .output i => i < r.outputs.length
  | .interior i => i < r.interior.length

/-- The value that the registry holds under a name. -/
def find? (r : Registry) (x : String) : Option Value := (r.slots.get? x).map r.value

/-- Every name leads to a value, and no two names lead to the same one. -/
structure Sound (r : Registry) : Prop where
  has : ∀ {x slot}, r.slots.get? x = some slot → r.Has slot
  injective : ∀ {x y slot}, r.slots.get? x = some slot → r.slots.get? y = some slot → x = y

variable {r r' : Registry} {x y new producer : String} {slot slot' : Slot} {v w : Value}

@[simp] lemma slots_modify (f : Value → Value) : (r.modify f slot).slots = r.slots := by
  cases slot <;> rfl

@[simp] lemma initializers_modify (f : Value → Value) :
    (r.modify f slot).initializers = r.initializers := by
  cases slot <;> rfl

@[simp] lemma missed_modify (f : Value → Value) : (r.modify f slot).missed = r.missed := by
  cases slot <;> rfl

@[simp] lemma has_modify (f : Value → Value) : (r.modify f slot).Has slot' ↔ r.Has slot' := by
  cases slot <;> cases slot' <;> simp [modify, Has]

private lemma getD_modify_self (vs : List Value) (f : Value → Value) (i : Nat) (h : i < vs.length) :
    (vs.modify i f).getD i default = f (vs.getD i default) := by
  simp [List.getD_eq_getElem?_getD, h]

private lemma getD_modify_of_ne (vs : List Value) (f : Value → Value) {i j : Nat} (h : j ≠ i) :
    (vs.modify i f).getD j default = vs.getD j default := by
  simp [List.getD_eq_getElem?_getD, Ne.symm h]

lemma value_modify_self (f : Value → Value) (h : r.Has slot) :
    (r.modify f slot).value slot = f (r.value slot) := by
  cases slot <;> exact getD_modify_self _ f _ h

lemma value_modify_of_ne (f : Value → Value) (h : slot' ≠ slot) :
    (r.modify f slot).value slot' = r.value slot' := by
  cases slot with
  | input i => cases slot' with
    | input j => exact getD_modify_of_ne _ f fun e => h (e ▸ rfl)
    | _ => rfl
  | output i => cases slot' with
    | output j => exact getD_modify_of_ne _ f fun e => h (e ▸ rfl)
    | _ => rfl
  | interior i => cases slot' with
    | interior j => exact getD_modify_of_ne _ f fun e => h (e ▸ rfl)
    | _ => rfl

lemma find?_of_slot (h : r.slots.get? x = some slot) : r.find? x = some (r.value slot) := by
  simp [find?, h]

lemma find?_of_none (h : r.slots.get? x = none) : r.find? x = none := by
  simp [find?, h]

lemma find?_modify_self (f : Value → Value) (hr : r.Sound) (h : r.slots.get? x = some slot) :
    (r.modify f slot).find? x = (r.find? x).map f := by
  rw [find?_of_slot (by simpa using h), find?_of_slot h, value_modify_self f (hr.has h)]
  rfl

lemma find?_modify_of_ne (f : Value → Value) (hr : r.Sound) (h : r.slots.get? x = some slot)
    (hy : y ≠ x) : (r.modify f slot).find? y = r.find? y := by
  simp only [find?, slots_modify]
  cases h' : r.slots.get? y with
  | none => rfl
  | some slot' =>
    have hne : slot' ≠ slot := fun e => hy (hr.injective h' (e ▸ h))
    simp [value_modify_of_ne f hne]

lemma sound_modify (f : Value → Value) (hr : r.Sound) : (r.modify f slot).Sound where
  has h := (has_modify f).mpr (hr.has (by simpa using h))
  injective h h' := hr.injective (by simpa using h) (by simpa using h')

@[simp] lemma initializers_addInterior : (r.addInterior x v).initializers = r.initializers := rfl

@[simp] lemma missed_addInterior : (r.addInterior x v).missed = r.missed := rfl

@[simp] lemma inputs_addInterior : (r.addInterior x v).inputs = r.inputs := rfl

@[simp] lemma outputs_addInterior : (r.addInterior x v).outputs = r.outputs := rfl

lemma slots_addInterior : (r.addInterior x v).slots.get? y =
    if y = x then some (.interior r.interior.length) else r.slots.get? y := by
  simp [addInterior, Table.get?_insert]

lemma has_addInterior (h : r.Has slot) : (r.addInterior x v).Has slot := by
  cases slot with
  | interior i => simp only [Has, addInterior, List.length_append] at h ⊢; omega
  | _ => exact h

lemma value_addInterior (h : r.Has slot) : (r.addInterior x v).value slot = r.value slot := by
  cases slot with
  | interior i =>
    simp only [Has] at h
    simp [value, addInterior, List.getD_eq_getElem?_getD, List.getElem?_append, h]
  | _ => rfl

lemma value_addInterior_last :
    (r.addInterior x v).value (.interior r.interior.length) = v := by
  simp [value, addInterior, List.getD_eq_getElem?_getD]

lemma find?_addInterior_self : (r.addInterior x v).find? x = some v := by
  have hslot : (r.addInterior x v).slots.get? x = some (.interior r.interior.length) := by
    simp [slots_addInterior]
  rw [find?_of_slot hslot, value_addInterior_last]

lemma find?_addInterior_of_ne (hr : r.Sound) (hy : y ≠ x) :
    (r.addInterior x v).find? y = r.find? y := by
  simp only [find?, slots_addInterior, hy, if_false]
  cases h : r.slots.get? y with
  | none => rfl
  | some slot => simp [value_addInterior (hr.has h)]

/-- A name may be led to a slot that no name has been led to. -/
lemma sound_of_insert (hr : r.Sound) (hs : r'.slots = r.slots.insert x slot) (hnew : ¬ r.Has slot)
    (hold : ∀ {slot}, r.Has slot → r'.Has slot) (hhas : r'.Has slot) : r'.Sound where
  has {y slot'} h := by
    rw [hs, Table.get?_insert] at h
    split at h
    · obtain rfl : slot = slot' := by simpa using h
      exact hhas
    · exact hold (hr.has h)
  injective {y z slot'} h h' := by
    rw [hs, Table.get?_insert] at h h'
    split at h <;> split at h'
    · next hy hz => exact hy.trans hz.symm
    · exact absurd (hr.has (h'.trans h.symm)) hnew
    · exact absurd (hr.has (h.trans h'.symm)) hnew
    · exact hr.injective h h'

lemma sound_addInterior (hr : r.Sound) : (r.addInterior x v).Sound := by
  have hslots : (r.addInterior x v).slots = r.slots.insert x (.interior r.interior.length) := rfl
  exact sound_of_insert hr hslots (by simp [Has]) has_addInterior (by simp [Has, addInterior])

/-! ## Reading -/

lemma isOutput_eq_true : r.isOutput x = true ↔ ∃ i, r.slots.get? x = some (.output i) := by
  unfold isOutput
  split <;> simp_all

lemma resolve_empty : r.resolve "" = .ok { name := "" } := by
  simp [resolve]

/-- What a node may read under a name: an array of the file, nothing, a graph input or what a node
has produced. A graph output is not read. -/
lemma resolve_ok (hx : x ≠ "") (h : r.resolve x = .ok v) :
    (r.slots.get? x = none ∧ v = (r.initializers.get? x).getD { name := x }) ∨
    (∃ i, r.slots.get? x = some (.input i) ∧
      v = { r.value (.input i) with name := x, used := true }) ∨
    (∃ i, r.slots.get? x = some (.interior i) ∧
      v = { r.value (.interior i) with name := x }) := by
  simp only [resolve, hx, if_false] at h
  split at h
  · next hs => exact .inl ⟨hs, by simpa using h.symm⟩
  · next i hs => exact .inr (.inl ⟨i, hs, by simpa using h.symm⟩)
  · next i hs => exact .inr (.inr ⟨i, hs, by simpa using h.symm⟩)
  · simp at h

/-- What is read under a name bears it, if an array that is read under it does. -/
lemma name_of_resolve
    (harrays : ∀ u, r.slots.get? x = none → r.initializers.get? x = some u → u.name = x)
    (h : r.resolve x = .ok v) : v.name = x := by
  by_cases hx : x = ""
  · rw [hx, resolve_empty] at h
    rw [hx, ← Except.ok.inj h]
  obtain ⟨hs, rfl⟩ | ⟨i, -, rfl⟩ | ⟨i, -, rfl⟩ := resolve_ok hx h
  · cases ha : r.initializers.get? x with
    | none => rfl
    | some u => exact harrays u hs ha
  · rfl
  · rfl

/-- A registry in which some inputs count as used, and some names as missed, that did not before. -/
structure Marked (r r' : Registry) : Prop where
  slots : r'.slots = r.slots
  initializers : r'.initializers = r.initializers
  outputs : r'.outputs = r.outputs
  interior : r'.interior = r.interior
  inputs : List.Forall₂ (fun v w => w = v ∨ w = { v with used := true }) r.inputs r'.inputs
  missed : r.missed ⊆ r'.missed

namespace Marked

lemma refl (r : Registry) : Marked r r where
  slots := rfl
  initializers := rfl
  outputs := rfl
  interior := rfl
  inputs := List.forall₂_same.mpr fun _ _ => .inl rfl
  missed := List.Subset.refl _

lemma trans {r₁ r₂ r₃ : Registry} (h : Marked r₁ r₂) (h' : Marked r₂ r₃) : Marked r₁ r₃ where
  slots := h'.slots.trans h.slots
  initializers := h'.initializers.trans h.initializers
  outputs := h'.outputs.trans h.outputs
  interior := h'.interior.trans h.interior
  inputs := by
    refine forall₂_trans (fun a b c hab hbc => ?_) h.inputs h'.inputs
    rcases hab with rfl | rfl <;> rcases hbc with rfl | rfl <;> simp
  missed := List.Subset.trans h.missed h'.missed

lemma getD_inputs {vs ws : List Value}
    (h : List.Forall₂ (fun v w => w = v ∨ w = { v with used := true }) vs ws) (i : Nat) :
    ws.getD i default = vs.getD i default ∨
      ws.getD i default = { vs.getD i default with used := true } := by
  induction h generalizing i with
  | nil => exact .inl rfl
  | cons hvw _ ih =>
    cases i with
    | zero => exact hvw
    | succ i => exact ih i

/-- A value differs at most in counting as used. -/
lemma value (h : Marked r r') (slot : Slot) :
    r'.value slot = r.value slot ∨ r'.value slot = { r.value slot with used := true } := by
  cases slot with
  | input i => exact getD_inputs h.inputs i
  | output i => exact .inl (by simp [Registry.value, h.outputs])
  | interior i => exact .inl (by simp [Registry.value, h.interior])

lemma name_value (h : Marked r r') (slot : Slot) :
    (r'.value slot).name = (r.value slot).name := by
  rcases h.value slot with e | e <;> rw [e]

lemma has (h : Marked r r') : r'.Has slot ↔ r.Has slot := by
  cases slot <;> simp [Has, h.outputs, h.interior, h.inputs.length_eq]

lemma sound (h : Marked r r') (hr : r.Sound) : r'.Sound where
  has hs := h.has.mpr (hr.has (h.slots ▸ hs))
  injective hs hs' := hr.injective (h.slots ▸ hs) (h.slots ▸ hs')

end Marked

/-- The new name of an operand that the file calls `x`, if it gets one. -/
def nameFor (r : Registry) (x : String) : Option String :=
  if x = "" then none
  else match r.slots.get? x with
    | some (.input i) => if r.initializers.contains x then none else some (r.value (.input i)).name
    | some (.interior i) => some (r.value (.interior i)).name
    | _ => none

lemma Marked.nameFor (h : Marked r r') (x : String) : r'.nameFor x = r.nameFor x := by
  simp only [Registry.nameFor, h.slots, h.initializers, h.name_value]

lemma marked_use (i : Nat) :
    Marked r (r.modify (fun v => { v with used := true }) (.input i)) where
  slots := rfl
  initializers := rfl
  outputs := rfl
  interior := rfl
  inputs := forall₂_modify_self (fun _ => .inl rfl) (fun _ => .inr rfl) i r.inputs
  missed := List.Subset.refl _

/-- Asking for a new name marks the registry at most, and a graph input counts as used after it. -/
lemma newName_ok {name : Option String} (hr : r.Sound) (h : r.newName x = .ok (name, r')) :
    name = r.nameFor x ∧ Marked r r' ∧
      (x ≠ "" → ∀ i, r.slots.get? x ≠ some (.output i)) ∧
      ∀ i, x ≠ "" → r.slots.get? x = some (.input i) → (r'.value (.input i)).used = true := by
  by_cases hx : x = ""
  · simp only [newName, hx, if_true, Except.ok.injEq, Prod.mk.injEq] at h
    obtain ⟨rfl, rfl⟩ := h
    exact ⟨by simp [nameFor, hx], .refl r, fun h => absurd hx h, fun _ h => absurd hx h⟩
  simp only [newName, hx, if_false] at h
  simp only [nameFor, hx, if_false]
  split at h
  · next hs =>
    simp only [Except.ok.injEq, Prod.mk.injEq] at h
    obtain ⟨rfl, rfl⟩ := h
    refine ⟨by rw [hs], ?_, by simp [hs], by simp [hs]⟩
    split
    · exact .refl r
    · exact { Marked.refl r with missed := List.subset_cons_self _ _ }
  · next i hs =>
    simp only [Except.ok.injEq, Prod.mk.injEq] at h
    obtain ⟨rfl, rfl⟩ := h
    refine ⟨?_, marked_use i, by simp [hs], ?_⟩
    · rw [hs, (marked_use i).name_value, initializers_modify]
    · intro j _ hj
      obtain rfl : i = j := by simpa [hs] using hj
      rw [value_modify_self _ (hr.has hs)]
  · next i hs =>
    simp only [Except.ok.injEq, Prod.mk.injEq] at h
    obtain ⟨rfl, rfl⟩ := h
    exact ⟨by rw [hs], .refl r, by simp [hs], by simp [hs]⟩
  · simp at h

/-! ## Renaming and recording -/

/-- Only graph outputs and what nodes have produced are renamed. -/
lemma rename_ok (h : r.rename x new = .ok r') :
    ∃ slot, r.slots.get? x = some slot ∧ (∀ i, slot ≠ .input i) ∧
      r' = r.modify (fun v => { v with name := new }) slot := by
  simp only [rename] at h
  split at h
  · simp at h
  · simp at h
  · next slot hne hs => exact ⟨slot, hs, fun i e => hne i e, by simpa using h.symm⟩

/-- A value gets its new name where it stands, or in a slot of its own. -/
lemma insertOrRename_cases (h : r.insertOrRename v new = .ok r') :
    ((∀ slot, r.slots.get? v.name = some slot →
        (∃ i, slot = .interior i) ∧ (r.value slot).name ≠ v.name) ∧
      r' = r.addInterior v.name { v with name := new }) ∨
    ∃ slot, r.slots.get? v.name = some slot ∧ (∀ i, slot ≠ .input i) ∧
      (∀ i, slot = .interior i → (r.value slot).name = v.name) ∧
      r' = r.modify (fun w => { w with name := new }) slot := by
  simp only [insertOrRename] at h
  split at h
  · next hs => exact .inl ⟨by simp [hs], by simpa using h.symm⟩
  · next i hs =>
    split at h
    · next hname => exact .inr ⟨_, hs, by simp, fun _ _ => hname, by simpa using h.symm⟩
    · next hname => exact .inl ⟨by simp [hs, hname], by simpa using h.symm⟩
  · next i hs => exact .inr ⟨_, hs, by simp, by simp, by simpa using h.symm⟩
  · simp at h

/-- A value that is registered under its own name is renamed where it stands. -/
lemma insertOrRename_ok (hs : r.slots.get? v.name = some slot)
    (hname : ∀ i, slot = .interior i → (r.value slot).name = v.name)
    (h : r.insertOrRename v new = .ok r') :
    (∀ i, slot ≠ .input i) ∧ r' = r.modify (fun w => { w with name := new }) slot := by
  obtain ⟨hnew, -⟩ | ⟨slot', hs', hin, -, rfl⟩ := insertOrRename_cases h
  · obtain ⟨⟨i, hi⟩, hne⟩ := hnew slot hs
    exact absurd (hname i hi) hne
  · obtain rfl := Option.some.inj (hs.symm.trans hs')
    exact ⟨hin, rfl⟩

/-- How the registry `r` becomes `r'` when a named value is recorded. -/
lemma recordOne_ok (hv : v.name ≠ "") (h : r.recordOne producer v = .ok r') :
    (r.slots.get? v.name = none ∧ v.name ∉ r.missed ∧ r' = r.addInterior v.name v) ∨
    (∃ i, r.slots.get? v.name = some (.input i) ∧ r' = r.modify (·.copyFrom v) (.input i)) ∨
    (∃ i, r.slots.get? v.name = some (.output i) ∧
      r' = r.modify (fun w => { w.copyFrom v with used := true }) (.output i)) := by
  simp only [recordOne, hv, if_false] at h
  split at h
  · next hs =>
    split at h
    · simp at h
    · next hm => exact .inl ⟨hs, hm, by simpa using h.symm⟩
  · next i hs => exact .inr (.inl ⟨i, hs, by simpa using h.symm⟩)
  · next i hs => exact .inr (.inr ⟨i, hs, by simpa using h.symm⟩)
  · simp at h

/-- What the graph inputs are called in the graph. -/
def inputNames (r : Registry) : List String := r.inputs.map Value.name

lemma inputs_modify (f : Value → Value) (h : ∀ i, slot ≠ .input i) :
    (r.modify f slot).inputs = r.inputs := by
  cases slot with
  | input i => exact absurd rfl (h i)
  | _ => rfl

/-- A change that a view does not see leaves the graph inputs as they are in that view. -/
lemma map_inputs_modify {β : Type} {view : Value → β} (f : Value → Value)
    (h : ∀ v, view (f v) = view v) : (r.modify f slot).inputs.map view = r.inputs.map view := by
  cases slot with
  | input i =>
    refine List.ext_getElem? fun j => ?_
    simp only [modify, List.getElem?_map, List.getElem?_modify]
    cases r.inputs[j]? with
    | none => rfl
    | some v => by_cases hij : i = j <;> simp [hij, h]
  | _ => rfl

lemma Marked.inputNames (h : Marked r r') : r'.inputNames = r.inputNames := by
  have hinputs := h.inputs
  unfold Registry.inputNames
  generalize r.inputs = vs, r'.inputs = ws at hinputs
  induction hinputs with
  | nil => rfl
  | cons hvw _ ih => rcases hvw with rfl | rfl <;> simp [ih]

lemma inputs_rename (h : r.rename x new = .ok r') : r'.inputs = r.inputs := by
  obtain ⟨slot, -, hin, rfl⟩ := rename_ok h
  exact inputs_modify _ hin

lemma inputs_insertOrRename (h : r.insertOrRename v new = .ok r') : r'.inputs = r.inputs := by
  obtain ⟨-, rfl⟩ | ⟨slot, -, hin, -, rfl⟩ := insertOrRename_cases h
  · rfl
  · exact inputs_modify _ hin

/-- Recording leaves the graph inputs as they are in a view that does not see what is copied. -/
lemma map_inputs_recordOne {β : Type} {view : Value → β}
    (hview : ∀ v w, view (v.copyFrom w) = view v) (h : r.recordOne producer v = .ok r') :
    r'.inputs.map view = r.inputs.map view := by
  by_cases hv : v.name = ""
  · simp only [recordOne, hv, if_true, Except.ok.injEq] at h
    rw [h]
  obtain ⟨-, -, rfl⟩ | ⟨i, -, rfl⟩ | ⟨i, -, rfl⟩ := recordOne_ok hv h
  · rfl
  · exact map_inputs_modify _ fun w => hview w v
  · rfl

end TensorGraph.Registry
