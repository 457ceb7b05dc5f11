import TensorGraph.Proofs.Isolation

/-!
# Naming a value twice

Naming a value that has been named once succeeds again. It changes nothing if the value is a graph
output, or if its new name is the one that the file has for it; in any other case it adds a slot, as
the value in the slot no longer bears the name of the file (`Registry.Reached.insertOrRename_twice`).
-/

namespace TensorGraph.Registry

open Onnx

variable {r r₁ : Registry} {v : Value} {new : String} {slot : Slot}

/-- A value that bears the name already is renamed in vain. -/
lemma modify_of_named (hs : r.Has slot) (hname : (r.value slot).name = new) :
    r.modify (fun w => { w with name := new }) slot = r := by
  have hlist : ∀ (vs : List Value) (i : Nat), i < vs.length → (vs.getD i default).name = new →
      vs.modify i (fun w => { w with name := new }) = vs := by
    intro vs i hi hv
    rw [List.getD_eq_getElem?_getD, List.getElem?_eq_getElem hi, Option.getD_some] at hv
    refine List.ext_getElem? fun j => ?_
    rw [List.getElem?_modify]
    split
    · next hij =>
      subst hij
      rw [List.getElem?_eq_getElem hi, Option.map_eq_map, Option.map_some, ← hv]
    · simp
  cases slot <;> simp only [modify] <;> rw [hlist _ _ hs hname]

lemma addInterior_ne_self {x : String} : r.addInterior x v ≠ r := fun h => by
  have hlength := congrArg (fun r => r.interior.length) h
  simp [addInterior] at hlength

/-- What is named lies in a slot, under its new name. -/
lemma insertOrRename_named (hr : r.Sound) (h : r.insertOrRename v new = .ok r₁) :
    r₁.isOutput v.name = r.isOutput v.name ∧ ∃ slot, r₁.slots.get? v.name = some slot ∧
      (∀ i, slot ≠ .input i) ∧ (r₁.value slot).name = new := by
  obtain ⟨hnew, rfl⟩ | ⟨slot, hs, hin, -, rfl⟩ := insertOrRename_cases h
  · have hslot : (r.addInterior v.name { v with name := new }).slots.get? v.name =
        some (.interior r.interior.length) := by simp [slots_addInterior]
    refine ⟨?_, _, hslot, by simp, by rw [value_addInterior_last]⟩
    rw [Bool.eq_iff_iff, isOutput_eq_true, isOutput_eq_true]
    refine iff_of_false (by simp [hslot]) ?_
    rintro ⟨i, hi⟩
    simpa using (hnew _ hi).1
  · refine ⟨by simp [isOutput], slot, by rw [slots_modify, hs], hin, ?_⟩
    rw [value_modify_self _ (hr.has hs)]

/-- A value that lies in a slot under its new name stays so if it is a graph output or the new name is
the one that the file has for it. Otherwise it gets a slot of its own. -/
lemma insertOrRename_of_named (hr : r.Sound) (hs : r.slots.get? v.name = some slot)
    (hin : ∀ i, slot ≠ .input i) (hname : (r.value slot).name = new) :
    r.insertOrRename v new = .ok (if r.isOutput v.name = true ∨ new = v.name then r
      else r.addInterior v.name { v with name := new }) := by
  have hkept := modify_of_named (hr.has hs) hname
  cases slot with
  | input i => exact absurd rfl (hin i)
  | output i => simp [insertOrRename, isOutput, hs, hkept]
  | interior i => simp [insertOrRename, isOutput, hs, hname, hkept]

/-- What naming a value does the second time. -/
theorem insertOrRename_again (hr : r.Sound) (h : r.insertOrRename v new = .ok r₁) :
    r₁.insertOrRename v new = .ok (if r.isOutput v.name = true ∨ new = v.name then r₁
      else r₁.addInterior v.name { v with name := new }) := by
  obtain ⟨hout, slot, hslot, hin, hname⟩ := insertOrRename_named hr h
  rw [← hout]
  exact insertOrRename_of_named (insertOrRename_outside hr h).sound hslot hin hname

/-- A name keeps its slot among what nodes have produced exactly if the value there bears it. -/
lemma insertOrRename_keeps_iff {i : Nat} (hr : r.Sound) (hs : r.slots.get? v.name = some (.interior i))
    (h : r.insertOrRename v new = .ok r₁) :
    r₁.slots.get? v.name = some (.interior i) ↔ (r.value (.interior i)).name = v.name := by
  obtain ⟨hnew, rfl⟩ | ⟨slot, hs', -, hname, rfl⟩ := insertOrRename_cases h
  · have hi : i < r.interior.length := hr.has hs
    refine iff_of_false ?_ (hnew _ hs).2
    simp only [slots_addInterior, if_true, Option.some.injEq, Slot.interior.injEq]
    omega
  · obtain rfl := Option.some.inj (hs.symm.trans hs')
    exact iff_of_true (by rw [slots_modify, hs]) (hname i rfl)

/-- Whatever has been done to a registry: where naming a value succeeds, it succeeds again, and the
second time changes nothing if and only if the value is a graph output or its new name is the one that
the file has for it. The value keeps its slot among what nodes have produced if and only if it bears
the name that the file has for it. -/
theorem Reached.insertOrRename_twice (h : r.Reached) (h₁ : r.insertOrRename v new = .ok r₁) :
    (∃ r₂, r₁.insertOrRename v new = .ok r₂ ∧
      (r₂ = r₁ ↔ r.isOutput v.name = true ∨ new = v.name)) ∧
    ∀ i, r.slots.get? v.name = some (.interior i) →
      (r₁.slots.get? v.name = some (.interior i) ↔ (r.value (.interior i)).name = v.name) := by
  refine ⟨⟨_, insertOrRename_again h.sound h₁, ?_⟩, fun i hs => insertOrRename_keeps_iff h.sound hs h₁⟩
  split
  · next hkept => exact iff_of_true rfl hkept
  · next hnew => exact iff_of_false addInterior_ne_self hnew

/-- A model with the one graph output `y`. -/
def oneOutput : ModelMessage where
  outputs := [{ name := "y", elementType := 1, dims := [.size 2] }]

/-- A Constant that writes a graph output is named twice. -/
theorem Reached.insertOrRename_twice_output : ∃ r r₁ r₂, Reached r ∧
    r.insertOrRename { name := "y" } "constant1_out1" = .ok r₁ ∧
    r₁.insertOrRename { name := "y" } "constant1_out1" = .ok r₂ ∧ r₂ = r₁ := by
  obtain ⟨r, h, hout⟩ : ∃ r, ofModel oneOutput = .ok r ∧ r.slots.get? "y" = some (.output 0) :=
    Except.exists_ok (by decide +kernel)
  have h₁ : r.insertOrRename { name := "y" } "constant1_out1" =
      .ok (r.modify (fun w => { w with name := "constant1_out1" }) (.output 0)) := by
    simp only [insertOrRename, hout]
  have reached : Reached r := .start h
  obtain ⟨⟨r₂, h₂, hkept⟩, -⟩ := reached.insertOrRename_twice h₁
  exact ⟨r, _, r₂, reached, h₁, h₂, hkept.mpr (.inl (isOutput_eq_true.mpr ⟨0, hout⟩))⟩

/-- What a Constant writes has been recorded. -/
def recordedConstant : Registry := ({} : Registry).after (.record "constant1" [{ name := "c" }])

lemma reached_recordedConstant : recordedConstant.Reached :=
  .step (.start (show ofModel {} = .ok {} from rfl)) _

/-- Named twice, what the Constant writes moves on to a second slot. -/
theorem not_insertOrRename_twice : recordedConstant.Reached ∧ ∃ r₁ r₂,
    recordedConstant.slots.get? "c" = some (.interior 0) ∧
    recordedConstant.insertOrRename { name := "c" } "constant1_out1" = .ok r₁ ∧
    r₁.slots.get? "c" = some (.interior 0) ∧
    r₁.insertOrRename { name := "c" } "constant1_out1" = .ok r₂ ∧
    r₂.slots.get? "c" = some (.interior 1) ∧ r₂ ≠ r₁ := by
  obtain ⟨r₁, h₁, hslot, hslot₁, hlength, hout⟩ : ∃ r₁,
      recordedConstant.insertOrRename { name := "c" } "constant1_out1" = .ok r₁ ∧
        recordedConstant.slots.get? "c" = some (.interior 0) ∧
          r₁.slots.get? "c" = some (.interior 0) ∧ r₁.interior.length = 1 ∧
            recordedConstant.isOutput "c" = false :=
    Except.exists_ok (by decide +kernel)
  have h₂ := insertOrRename_again reached_recordedConstant.sound h₁
  rw [if_neg (by simp [hout])] at h₂
  refine ⟨reached_recordedConstant, r₁, _, hslot, h₁, hslot₁, h₂, ?_, addInterior_ne_self⟩
  rw [slots_addInterior, if_pos rfl, hlength]

end TensorGraph.Registry
