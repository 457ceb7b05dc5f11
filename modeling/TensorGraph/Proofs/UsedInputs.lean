import TensorGraph.Proofs.Dangling
import TensorGraph.Proofs.Accounting

/-!
# Graph inputs that are used

A graph input without an array stays in the graph exactly if a node of the graph reads it, or one
that has been left out of the graph (`importGraph_usedInput`). An input counts as used as soon as a
node reads it, also where that node, an identity or a Constant, does not come into the graph.
-/

namespace TensorGraph

open Onnx ModelMessage Registry

/-- An operand of the node is called `x`. -/
def Node.HasOperand (n : Node) (x : String) : Prop := ∃ v ∈ n.inputs, v.name = x

instance (n : Node) (x : String) : Decidable (n.HasOperand x) := by
  unfold Node.HasOperand
  infer_instance

/-- A node of the file that is left out of the graph has an operand called `x`. -/
def Onnx.ModelMessage.LeavesOutReader (m : ModelMessage) (x : String) : Prop :=
  ∃ ps s i q, Run m ps [] s ∧ i ∈ s.removed ∧ ps[i]? = some q ∧ LeftOut m ps i q ∧
    q.final.HasOperand x

variable {m : ModelMessage} {r r' r₀ : Registry} {s s' : ImportState} {p : Passage}
  {ps : List Passage} {rest : List NodeMessage} {v : Value} {vs ws : List Value} {x : String}
  {d : ValueMessage} {i : Nat}

/-- The graph input at the place `i` counts as used. -/
def Registry.UsesInput (r : Registry) (i : Nat) : Prop := (r.inputs.map Value.used)[i]? = some true

lemma unused_addInput (hr : ∀ v ∈ r.inputs, v.used = false) (h : r.addInput d = .ok r') :
    ∀ v ∈ r'.inputs, v.used = false := by
  simp only [Registry.addInput, Except.bind_eq_ok, Except.pure_eq_ok] at h
  obtain ⟨w, hw, rfl⟩ := h
  intro v hv
  rw [List.mem_append, List.mem_singleton] at hv
  rcases hv with hv | rfl
  · exact hr v hv
  · have hunused := used_declared hw
    split
    · exact hunused
    · exact hunused

lemma inputs_addOutput (h : r.addOutput d = .ok r') : r'.inputs = r.inputs := by
  simp only [Registry.addOutput, Except.bind_eq_ok, Except.pure_eq_ok] at h
  obtain ⟨w, -, rfl⟩ := h
  rfl

/-- Before the first node no graph input counts as used. -/
lemma not_usesInput_ofModel (h : ofModel m = .ok r) : ¬ r.UsesInput i := by
  simp only [ofModel, Except.bind_eq_ok] at h
  obtain ⟨t, -, r₁, h₁, h₂⟩ := h
  have hins : ∀ v ∈ r₁.inputs, v.used = false :=
    Except.foldlM_invariant (fun r : Registry => ∀ v ∈ r.inputs, v.used = false)
      (fun _ _ _ h hr => unused_addInput hr h) h₁ (by simp)
  have houts : r.inputs = r₁.inputs :=
    Except.foldlM_invariant (fun r : Registry => r.inputs = r₁.inputs)
      (fun _ _ _ h hr => (inputs_addOutput h).trans hr) h₂ rfl
  intro hused
  rw [UsesInput, houts, List.getElem?_map, Option.map_eq_some_iff] at hused
  obtain ⟨v, hv, hused⟩ := hused
  simp [hins v (List.mem_of_getElem? hv)] at hused

/-- The new name of an operand makes no graph input count as used but the operand. -/
lemma usesInput_newName {name : Option String} (h : r.newName x = .ok (name, r'))
    (hused : r'.UsesInput i) : r.UsesInput i ∨ x ≠ "" ∧ r.slots.get? x = some (.input i) := by
  by_cases hx : x = ""
  · simp only [newName, hx, if_true, Except.ok.injEq, Prod.mk.injEq] at h
    exact .inl (h.2 ▸ hused)
  simp only [newName, hx, if_false] at h
  split at h
  · simp only [Except.ok.injEq, Prod.mk.injEq] at h
    obtain ⟨-, rfl⟩ := h
    refine .inl ?_
    split at hused
    · exact hused
    · exact hused
  · next j hs =>
    simp only [Except.ok.injEq, Prod.mk.injEq] at h
    obtain ⟨-, rfl⟩ := h
    by_cases hij : j = i
    · exact .inr ⟨hx, hij ▸ hs⟩
    · refine .inl ?_
      simpa [UsesInput, Registry.modify, List.getElem?_modify, hij] using hused
  · simp only [Except.ok.injEq, Prod.mk.injEq] at h
    exact .inl (h.2 ▸ hused)
  · cases h

lemma usesInput_renameInputs (hr : r.Sound) (h : ImportState.renameInputs r vs = .ok (r', ws))
    (hused : r'.UsesInput i) :
    r.UsesInput i ∨ ∃ v ∈ vs, v.name ≠ "" ∧ r.slots.get? v.name = some (.input i) := by
  induction vs generalizing r ws with
  | nil =>
    obtain ⟨rfl, -⟩ := Prod.mk.inj (Except.ok.inj h)
    exact .inl hused
  | cons v vs ih =>
    obtain ⟨name, r₁, us, h₁, h₂, -⟩ := renameInputs_cons_ok h
    obtain ⟨-, hmark, -⟩ := newName_ok hr h₁
    rcases ih (hmark.sound hr) h₂ with hused | ⟨w, hw, hne, hslot⟩
    · rcases usesInput_newName h₁ hused with hused | ⟨hne, hslot⟩
      · exact .inl hused
      · exact .inr ⟨v, List.mem_cons_self, hne, hslot⟩
    · exact .inr ⟨w, List.mem_cons_of_mem v hw, hne, hmark.slots ▸ hslot⟩

/-- A graph input counts as used only if some node of the file reads it. -/
theorem Run.read_of_usesInput (hr : ofModel m = .ok r₀) (run : Run m ps rest s)
    (hused : s.registry.UsesInput i) :
    ∃ p ∈ ps, ∃ v ∈ p.typed.inputs, v.name ≠ "" ∧ r₀.slots.get? v.name = some (.input i) := by
  induction run with
  | start h => exact absurd hused (not_usesInput_ofModel h)
  | @step ps p rest s s' run next step ih =>
    have hview : ∀ v w : Value, (v.copyFrom w).used = v.used := fun _ _ => rfl
    obtain ⟨hrecorded, hmarked⟩ := step.inputs_registry hview
    have hgrows := (run.grows hr).trans (step.grows_recorded run.sound)
    rw [UsesInput, hmarked] at hused
    rcases usesInput_renameInputs hgrows.sound step.renameInputs hused with hused | ⟨v, hv, hne, hs⟩
    · rw [UsesInput, hrecorded] at hused
      obtain ⟨q, hq, hread⟩ := ih hused
      exact ⟨q, List.mem_append_left _ hq, hread⟩
    · exact ⟨p, by simp, v, hv, hne, (hgrows.outer (by simp)).mp hs⟩

/-- The inputs of a graph are those that count as used. -/
lemma usesInput_iff (run : Run m ps [] s) :
    (∃ u ∈ (s.graph m.name).inputs, u.name = s!"input{i + 1}") ↔ s.registry.UsesInput i := by
  rw [ImportState.graph]
  simp only [List.mem_filter, UsesInput, List.getElem?_map, Option.map_eq_some_iff]
  constructor
  · rintro ⟨u, ⟨hu, hused⟩, hname⟩
    obtain ⟨l, hl⟩ := List.getElem?_of_mem hu
    obtain rfl : l = i :=
      Nat.succ.inj (inputName_inj ((run.name_input hl).symm.trans hname))
    exact ⟨u, hl, hused⟩
  · rintro ⟨u, hu, hused⟩
    exact ⟨u, ⟨List.mem_of_getElem? hu, hused⟩, run.name_input hu⟩

/-! ## Graph inputs of a well-formed model -/

section Runs

variable (hm : m.WellFormed) (hin : m.InputsNamed)

include hm hin

/-- A graph input without an array counts as used exactly if an operand bears its new name. -/
lemma usesInput_iff_hasOperand (hgen : m.NoGenerated) (run : Run m ps [] s)
    (hd : m.inputs[i]? = some d) (harray : d.name ∉ m.initializerNames) :
    s.registry.UsesInput i ↔ ∃ p ∈ ps, p.final.HasOperand s!"input{i + 1}" := by
  obtain ⟨r₀, hr⟩ := run.registry_eq_ok
  have reg := run.registered hm hin hr
  constructor
  · intro hused
    obtain ⟨p, hp, v, hv, hne, hslot⟩ := run.read_of_usesInput hr hused
    obtain ⟨before, after, hps⟩ := List.append_of_mem hp
    have edged := run.edged hm hin hgen hr hps
    refine ⟨p, hp, p.recorded.renamedOperand v, edged.inputs ▸ List.mem_map_of_mem hv, ?_⟩
    rw [name_renamedOperand]
    obtain ⟨d', -, hd', hname, -⟩ := reg.declares.input hslot
    obtain rfl := Option.some.inj (hd.symm.trans hd')
    cases edged.names hv hne with
    | array mem => exact absurd (hname ▸ mem) harray
    | unknown slot => simp [hslot] at slot
    | input slot _ eq =>
      obtain rfl := Slot.input.inj (Option.some.inj (hslot.symm.trans slot))
      rw [eq, Option.getD_some]
    | @written q k u mem output name_eq =>
      have hwritten : u.name ∈ q.written :=
        mem_namesOf_of_mem (List.mem_of_getElem? output) (name_eq ▸ hne)
      have hnot := reg.not_input hm (reg.written q (by simp [hps, mem]) hwritten) i
      exact absurd (name_eq ▸ hslot) hnot
  · rintro ⟨p, hp, w, hw, hname⟩
    obtain ⟨before, after, hps⟩ := List.append_of_mem hp
    obtain ⟨v, hv, hvne, -, slot, -⟩ := (run.edged hm hin hgen hr hps).reads_input hw hname
    exact (usesInput_iff run).mp (mem_inputs_of_read hm hin hr run hp hv hvne slot)

/-- A graph input without an array stays exactly if a node of the graph reads it, or a node that
has been left out. -/
theorem importGraph_usedInput {checkFirst : Bool} {g : Graph} (hgen : m.NoGenerated)
    (h : m.importGraph checkFirst = .ok g) (hd : m.inputs[i]? = some d)
    (harray : d.name ∉ m.initializerNames) :
    (∃ u ∈ g.inputs, u.name = s!"input{i + 1}") ↔
      (∃ n ∈ g.nodes, n.HasOperand s!"input{i + 1}") ∨ m.LeavesOutReader s!"input{i + 1}" := by
  obtain ⟨ps, s, run, rfl⟩ := importGraph_ok h
  rw [usesInput_iff run]
  constructor
  · intro hused
    obtain ⟨p, hp, hoperand⟩ := (usesInput_iff_hasOperand hm hin hgen run hd harray).mp hused
    obtain ⟨k, hk⟩ := List.getElem?_of_mem hp
    by_cases hremoved : k ∈ s.removed
    · obtain ⟨q, hq, hout⟩ := run.leftOut hremoved
      obtain rfl : p = q := Option.some.inj (hk.symm.trans hq)
      exact .inr ⟨ps, s, k, p, run, hremoved, hk, hout, hoperand⟩
    · exact .inl ⟨p.final, (mem_graph_nodes run.nodes).mpr ⟨k, p, hk, hremoved, rfl⟩, hoperand⟩
  · rintro (⟨n, hn, hoperand⟩ | ⟨ps', s', k, q, run', -, hq, -, hoperand⟩)
    · obtain ⟨k, p, hp, -, rfl⟩ := (mem_graph_nodes run.nodes).mp hn
      exact (usesInput_iff_hasOperand hm hin hgen run hd harray).mpr
        ⟨p, List.mem_of_getElem? hp, hoperand⟩
    · -- all runs over the model end in one state
      obtain rfl := Except.ok.inj (run'.importState_eq.symm.trans run.importState_eq)
      exact (usesInput_iff_hasOperand hm hin hgen run' hd harray).mpr
        ⟨q, List.mem_of_getElem? hq, hoperand⟩

end Runs

/-- An identity of a graph input, which nobody reads, beside a Relu. -/
def deadIdentity : ModelMessage where
  inputs := [{ name := "x", elementType := 1, dims := [.size 2] },
    { name := "z", elementType := 1, dims := [.size 2] }]
  outputs := [{ name := "y", elementType := 1, dims := [.size 2] }]
  nodes := [
    { operator := "Identity", inputs := ["x"], outputs := ["d"] },
    { operator := "Relu", inputs := ["z"], outputs := ["y"] }]

theorem importGraph_usedInput_deadIdentity :
    ∃ g, deadIdentity.importGraph false = .ok g ∧
      ((∃ u ∈ g.inputs, u.name = "input2") ↔
        (∃ n ∈ g.nodes, n.HasOperand "input2") ∨ deadIdentity.LeavesOutReader "input2") := by
  obtain ⟨g, hg, -⟩ : ∃ g, deadIdentity.importGraph false = .ok g ∧ True :=
    Except.exists_ok (by decide +kernel)
  have hd : deadIdentity.inputs[1]? = some ⟨"z", 1, [.size 2]⟩ := rfl
  exact ⟨g, hg, importGraph_usedInput (by decide) (by decide) (by decide) hg hd (by decide)⟩

/-- The graph input that only the identity reads stays, though no node of the graph reads it. -/
theorem deadIdentity_keepsInput :
    deadIdentity.WellFormed ∧ deadIdentity.InputsNamed ∧ deadIdentity.NoGenerated ∧
      "x" ∉ deadIdentity.initializerNames ∧ ∃ g, deadIdentity.importGraph false = .ok g ∧
        (∃ u ∈ g.inputs, u.name = "input1") ∧ ¬ ∃ n ∈ g.nodes, n.HasOperand "input1" :=
  ⟨by decide, by decide, by decide, by decide, Except.exists_ok (by decide +kernel)⟩

end TensorGraph
