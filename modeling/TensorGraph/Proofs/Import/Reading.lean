import TensorGraph.Proofs.Import.Trace

/-!
# What a node reads under a name

Along a run over a well-formed model, what is read under a name is a literal exactly if the name is
that of an array of the file (`Registered.isSome_literal_resolve`), and the new name of an operand
tells what the name stands for (`Registered.names`).
-/

namespace TensorGraph

open Onnx ModelMessage Registry

variable {m : ModelMessage} {r r₀ r' : Registry} {ps : List Passage} {u v : Value} {x : String}

/-- What the operand called `x` in the file is called in the graph, after the passages `ps`. -/
inductive Names (m : ModelMessage) (r₀ : Registry) (ps : List Passage) (x : String)
    (name : Option String) : Prop where
  | array (mem : x ∈ m.initializerNames) (eq : name = none)
  | input {i : Nat} (slot : r₀.slots.get? x = some (.input i)) (mem : x ∉ m.initializerNames)
      (eq : name = some s!"input{i + 1}")
  | written {q : Passage} {k : Nat} {v : Value} (mem : q ∈ ps)
      (output : q.typed.outputs[k]? = some v) (name_eq : v.name = x)
      (eq : name = some (ImportState.outputName q.typed (k + 1)))
  | unknown (slot : r₀.slots.get? x = none) (unwritten : ∀ q ∈ ps, x ∉ q.written)
      (mem : x ∉ m.initializerNames) (eq : name = none)

lemma Registry.SameOutside.nameFor {names : List String} (h : SameOutside names r r')
    (hx : x ∉ names) : r'.nameFor x = r.nameFor x := by
  have hslot := h.slots hx
  have hfind := h.find? hx
  simp only [Registry.nameFor, hslot, h.initializers]
  cases hs : r.slots.get? x with
  | none => rfl
  | some slot =>
    rw [find?_of_slot hs, find?_of_slot (hslot.trans hs)] at hfind
    cases slot <;> simp only [Option.some.inj hfind]

namespace Registered

/-- What a passage has written is in no slot that was there before, but for graph outputs. -/
lemma of_interior {i : Nat} (h : Registered m r₀ ps r) (hs : r.slots.get? x = some (.interior i)) :
    ∃ q ∈ ps, ∃ (k : Nat) (v : Value), q.typed.outputs[k]? = some v ∧ v.name = x ∧
      v.literal = none ∧ ∃ used, r.value (.interior i) =
        { v with name := ImportState.outputName q.typed (k + 1), used } := by
  rcases h.holds.inner hs with hs | ⟨-, q, hq, hx⟩
  · exact absurd hs (h.declares.not_interior i)
  · obtain ⟨hne, v, hv, rfl⟩ := Passage.mem_written.mp hx
    obtain ⟨k, hk⟩ := List.getElem?_of_mem hv
    obtain ⟨-, used, hfind⟩ := h.holds.written hq hk hne
    rw [find?_of_slot hs] at hfind
    exact ⟨q, hq, k, v, hk, rfl, (h.writes q hq).literal hv, used, Option.some.inj hfind⟩

lemma of_input {i : Nat} (h : Registered m r₀ ps r) (hs : r.slots.get? x = some (.input i)) :
    r₀.slots.get? x = some (.input i) ∧
      ∃ used, r.value (.input i) = { r₀.value (.input i) with used } := by
  rcases h.holds.inner hs with hs₀ | ⟨⟨j, hj⟩, -⟩
  · obtain ⟨used, hfind⟩ := h.holds.input hs₀
    rw [find?_of_slot hs] at hfind
    exact ⟨hs₀, used, Option.some.inj hfind⟩
  · simp at hj

lemma contains_initializers (h : Registered m r₀ ps r) :
    r.initializers.contains x = true ↔ x ∈ m.initializerNames := by
  rw [h.holds.initializers]
  exact h.arrays.contains

/-- A graph input has a literal exactly if there is an array of its name. -/
lemma isSome_literal_input {i : Nat} (h : Registered m r₀ ps r)
    (hs : r₀.slots.get? x = some (.input i)) :
    (r₀.value (.input i)).literal.isSome ↔ x ∈ m.initializerNames := by
  obtain ⟨d, v, -, rfl, hv, hvalue⟩ := h.declares.input hs
  have hcontains := h.arrays.contains (x := d.name)
  rw [Table.contains_eq_isSome_get?] at hcontains
  change _ ↔ d.name ∈ m.initializers.map TensorMessage.name
  rw [hvalue, inputValue, ← hcontains]
  cases ha : r₀.initializers.get? d.name with
  | none => simp [(declared_ok hv).2]
  | some a => simpa [Value.copyFrom] using h.arrays.literal ha

lemma name_resolve (h : Registered m r₀ ps r) (hu : r.resolve x = .ok u) : u.name = x :=
  HoldsArrays.name_resolve (h.holds.initializers ▸ h.arrays) hu

/-- What is read under a name is a literal exactly if there is an array of that name. -/
theorem isSome_literal_resolve (hm : m.WellFormed) (h : Registered m r₀ ps r) (hx : x ≠ "")
    (hu : r.resolve x = .ok u) : u.literal.isSome ↔ x ∈ m.initializerNames := by
  obtain ⟨hs, rfl⟩ | ⟨i, hs, rfl⟩ | ⟨i, hs, rfl⟩ := resolve_ok hx hu
  · rw [← h.contains_initializers, Table.contains_eq_isSome_get?, h.holds.initializers]
    cases ha : r₀.initializers.get? x with
    | none => simp
    | some a => simpa using h.arrays.literal ha
  · obtain ⟨hs₀, used, hvalue⟩ := h.of_input hs
    rw [hvalue]
    exact h.isSome_literal_input hs₀
  · obtain ⟨q, hq, k, v, hk, rfl, hlit, used, hvalue⟩ := h.of_interior hs
    have hw := h.written q hq (mem_namesOf_of_mem (List.mem_of_getElem? hk) hx)
    simp [hvalue, hlit, hm.written_initializers _ hw]

/-- What is read as a literal has the name of an array. -/
lemma mem_initializerNames_of_literal (hm : m.WellFormed) (h : Registered m r₀ ps r)
    (hu : r.resolve x = .ok u) (hlit : u.literal.isSome) : x ≠ "" ∧ x ∈ m.initializerNames := by
  have hx : x ≠ "" := by
    rintro rfl
    rw [resolve_empty] at hu
    simp [← Except.ok.inj hu] at hlit
  exact ⟨hx, (h.isSome_literal_resolve hm hx hu).mp hlit⟩

/-- The new name of an operand tells what its name in the file stands for. -/
theorem names (h : Registered m r₀ ps r) (hx : x ≠ "")
    (hout : ∀ i, r.slots.get? x ≠ some (.output i)) : Names m r₀ ps x (r.nameFor x) := by
  cases hs : r.slots.get? x with
  | none =>
    have hname : r.nameFor x = none := by simp [nameFor, hx, hs]
    by_cases hmem : x ∈ m.initializerNames
    · exact .array hmem hname
    · refine .unknown ?_ (fun q hq hw => ?_) hmem hname
      · cases hs₀ : r₀.slots.get? x with
        | none => rfl
        | some slot => simp [h.holds.outer hs₀] at hs
      · obtain ⟨hne, v, hv, rfl⟩ := Passage.mem_written.mp hw
        obtain ⟨k, hk⟩ := List.getElem?_of_mem hv
        obtain ⟨-, used, hfind⟩ := h.holds.written hq hk hne
        simp [find?_of_none hs] at hfind
  | some slot =>
    cases slot with
    | output i => exact absurd hs (hout i)
    | input i =>
      obtain ⟨hs₀, used, hvalue⟩ := h.of_input hs
      by_cases hmem : x ∈ m.initializerNames
      · exact .array hmem (by simp [nameFor, hx, hs, h.contains_initializers, hmem])
      · refine .input hs₀ hmem ?_
        obtain ⟨d, v, -, -, -, hvalue₀⟩ := h.declares.input hs₀
        simp only [nameFor, hx, if_false, hs, h.contains_initializers, hmem, hvalue, hvalue₀,
          inputValue]
    | interior i =>
      obtain ⟨q, hq, k, v, hk, hname, -, used, hvalue⟩ := h.of_interior hs
      exact .written hq hk hname (by simp [nameFor, hx, hs, hvalue])

end Registered

end TensorGraph
