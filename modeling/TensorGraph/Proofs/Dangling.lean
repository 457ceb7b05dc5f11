import TensorGraph.Proofs.Import.Edges
import TensorGraph.Proofs.Import.Numbering

/-!
# Dangling edges

Lifting a literal drops the node that wrote it, also where another node reads it as it is. The edges
of an imported graph all lead somewhere exactly if no literal is lifted into one operand and read as
it is by another (`noDanglingEdge_iff`).
-/

namespace TensorGraph

open Onnx ModelMessage Registry

/-- An input of the graph, or an output of a node before the place `i`, is called `x`. -/
def Graph.Supplies (g : Graph) (i : Nat) (x : String) : Prop :=
  (∃ u ∈ g.inputs, u.name = x) ∨ ∃ n ∈ g.nodes.take i, ∃ u ∈ n.outputs, u.name = x

instance (g : Graph) (i : Nat) : DecidablePred (g.Supplies i) := fun _ => by
  unfold Graph.Supplies
  infer_instance

/-- An operand with a name and no literal is called like an input of the graph, or like an output of
a node before. -/
def Graph.NoDanglingEdge (g : Graph) : Prop :=
  ∀ i < g.nodes.length, ∀ n ∈ g.nodes[i]?, ∀ v ∈ n.inputs,
    v.name ≠ "" → v.literal = none → g.Supplies i v.name

instance (g : Graph) : Decidable g.NoDanglingEdge := by
  unfold Graph.NoDanglingEdge
  infer_instance

/-- Operands of one name all have a literal, or all have none. -/
def Graph.LiftsEverywhere (g : Graph) : Prop :=
  ∀ n ∈ g.nodes, ∀ n' ∈ g.nodes, ∀ v ∈ n.inputs, ∀ w ∈ n'.inputs, v.name ≠ "" → v.name = w.name →
    v.literal.isSome → w.literal.isSome

instance (g : Graph) : Decidable g.LiftsEverywhere := by
  unfold Graph.LiftsEverywhere
  infer_instance

variable {m : ModelMessage} {r r₀ : Registry} {s : ImportState} {p q : Passage}
  {ps before after : List Passage} {v w : Value} {x : String} {i k : Nat}

/-- A graph input that a node reads is an input of the graph. -/
lemma mem_inputs_of_read (hm : m.WellFormed) (hin : m.InputsNamed) (hr : ofModel m = .ok r₀)
    (run : Run m ps [] s) (hp : p ∈ ps) (hv : v ∈ p.typed.inputs) (hne : v.name ≠ "")
    (hs : r₀.slots.get? v.name = some (.input i)) :
    ∃ u ∈ (s.graph m.name).inputs, u.name = s!"input{i + 1}" := by
  have reg := run.registered hm hin hr
  have hslot := reg.holds.outer hs
  have hlt : i < s.registry.inputs.length := reg.holds.sound.has hslot
  obtain ⟨-, used, hvalue⟩ := reg.of_input hslot
  obtain ⟨d, u, -, -, -, hvalue₀⟩ := reg.declares.input hs
  refine ⟨s.registry.value (.input i), ?_, by rw [hvalue, hvalue₀]; rfl⟩
  rw [ImportState.graph, List.mem_filter]
  refine ⟨?_, run.used hm hin hr hp hv hne hs⟩
  simp only [Registry.value, List.getD_eq_getElem?_getD, List.getElem?_eq_getElem hlt,
    Option.getD_some]
  exact List.getElem_mem hlt

/-- What a passage that is kept reads from a passage that is dropped has been lifted into another
operand. -/
lemma lifted_of_dropped (hm : m.WellFormed) (hin : m.InputsNamed) (hgen : m.NoGenerated)
    (hr : ofModel m = .ok r₀) (run : Run m ps [] s) {u : Value}
    (hkept : s.elisions.get? u.name = none) (hq : ps[i]? = some q) (hi : i ∈ s.removed)
    (hu : q.typed.outputs[k]? = some u) (hne : u.name ≠ "") :
    ∃ n ∈ (s.graph m.name).nodes, ∃ w ∈ n.inputs, w.literal.isSome ∧
      w.name = ImportState.outputName q.typed (k + 1) := by
  have reg := run.registered hm hin hr
  have tracks := run.tracks hm hin hgen
  have hmem : u.name ∈ q.written := mem_namesOf_of_mem (List.mem_of_getElem? hu) hne
  obtain ⟨q', hq', -, hdropped⟩ := tracks.removed hi
  obtain rfl : q = q' := Option.some.inj (hq.symm.trans hq')
  cases hdropped with
  | @elided x e elision place =>
    obtain ⟨-, q', hq', hw⟩ := tracks.elided elision
    obtain rfl : q = q' := Option.some.inj ((place ▸ hq').symm.trans hq).symm
    rw [hw, List.mem_singleton] at hmem
    rw [hmem] at hkept
    simp [hkept] at elision
  | @lifted before after p w split mem input literal hw lifts =>
    rw [hw, List.mem_singleton] at hmem
    obtain ⟨_, _, _, -, -, step, -⟩ := run.split split
    have hp : ps[before.length]? = some p := by simp [split]
    have hnot : before.length ∉ s.removed := by
      intro hremoved
      obtain ⟨p', hp', ht, -⟩ := tracks.removed hremoved
      obtain rfl : p = p' := Option.some.inj (hp.symm.trans hp')
      simp [step.not_transparent lifts] at ht
    have edged := run.edged hm hin hgen hr split
    refine ⟨p.final, (mem_graph_nodes tracks.nodes).mpr ⟨_, p, hp, hnot, rfl⟩,
      p.recorded.renamedOperand w, ?_, by rwa [literal_renamedOperand], ?_⟩
    · rw [edged.inputs]
      exact List.mem_map_of_mem input
    · have hwritten := reg.written q (List.mem_of_getElem? hq) (by simp [hw] : w.name ∈ q.written)
      rw [name_renamedOperand]
      rw [hmem] at hne
      cases edged.names input hne with
      | array mem => exact absurd mem (hm.written_initializers _ hwritten)
      | input slot => exact absurd slot (reg.not_input hm hwritten _)
      | unknown _ unwritten => exact absurd (by simp [hw]) (unwritten q mem)
      | @written q' k' u' mem' output name_eq eq =>
        rw [eq, Option.getD_some]
        have hq' : q' ∈ ps := by simp [split, mem']
        exact reg.outputName_eq hq' (List.mem_of_getElem? hq) output hu (name_eq ▸ hne)
          (name_eq.trans hmem.symm)

/-- An operand that is called like a graph input reads it. -/
lemma Edged.reads_input (h : Edged m r₀ before p) (hw : w ∈ p.final.inputs)
    (hname : w.name = s!"input{i + 1}") : ∃ v ∈ p.typed.inputs, v.name ≠ "" ∧ w.type = v.type ∧
      r₀.slots.get? v.name = some (.input i) ∧ v.name ∉ m.initializerNames := by
  obtain ⟨v, hv, hvne, htype, -, names⟩ := h.named hw (hname ▸ inputName_ne_empty _)
  cases names with
  | @input j slot mem eq =>
    obtain rfl : i = j := Nat.succ.inj (inputName_inj (hname.symm.trans eq))
    exact ⟨v, hv, hvne, htype, slot, mem⟩
  | written _ _ _ eq => exact absurd (eq.symm.trans hname) (outputName_ne_inputName _ _ _)

/-- An operand that has a name is called like what the graph supplies, or like an operand that a
literal has been lifted into. -/
lemma supplies_or_lifted (hm : m.WellFormed) (hin : m.InputsNamed) (hgen : m.NoGenerated)
    (run : Run m ps [] s) {n : Node} (hn : (s.graph m.name).nodes[i]? = some n)
    (hw : w ∈ n.inputs) (hne : w.name ≠ "") :
    (s.graph m.name).Supplies i w.name ∨
      ∃ n' ∈ (s.graph m.name).nodes, ∃ w' ∈ n'.inputs, w'.literal.isSome ∧ w'.name = w.name := by
  obtain ⟨r₀, hr⟩ := run.registry_eq_ok
  have tracks := run.tracks hm hin hgen
  obtain ⟨before, p, after, hps, hkept, rfl, hbefore⟩ := graph_nodes_split tracks.nodes hn
  have hp : ps[before.length]? = some p := by simp [hps]
  obtain ⟨v, hv, hvne, -, -, names⟩ := (run.edged hm hin hgen hr hps).named hw hne
  cases names with
  | input slot _ eq =>
    rw [eq]
    exact .inl (.inl (mem_inputs_of_read hm hin hr run (List.mem_of_getElem? hp) hv hvne slot))
  | @written q k u mem output name_eq eq =>
    rw [eq]
    obtain ⟨j, hj⟩ := List.getElem?_of_mem mem
    have hjps : ps[j]? = some q := by
      rw [hps, getElem?_append_of_some hj]
    by_cases hdropped : j ∈ s.removed
    · right
      have hk := tracks.kept hp hkept hv
      rw [← name_eq] at hk hvne
      exact lifted_of_dropped hm hin hgen hr run hk hjps hdropped output hvne
    · left
      obtain ⟨before', after', hps'⟩ := List.append_of_mem (List.mem_of_getElem? hjps)
      obtain ⟨o, ho, hname⟩ := (run.edged hm hin hgen hr hps').output output (name_eq ▸ hvne)
      exact .inr ⟨q.final, (hbefore _).mpr ⟨j, q, hj, hdropped, rfl⟩, o, ho, hname⟩

/-- Without a value that is lifted into one operand and read as it is by another, no edge dangles. -/
lemma noDanglingEdge_of_liftsEverywhere (hm : m.WellFormed) (hin : m.InputsNamed)
    (hgen : m.NoGenerated) (run : Run m ps [] s)
    (h : (s.graph m.name).LiftsEverywhere) : (s.graph m.name).NoDanglingEdge := by
  intro i _ n hn w hw hne hlit
  rcases supplies_or_lifted hm hin hgen run hn hw hne with hsupplies | ⟨n', hn', w', hw', hlit', hname⟩
  · exact hsupplies
  · have := h n' hn' n (List.mem_of_getElem? hn) w' hw' w hw (hname ▸ hne) hname hlit'
    simp [hlit] at this

lemma not_outputName_of_mem_inputs (run : Run m ps [] s) {u : Value}
    (hu : u ∈ (s.graph m.name).inputs) (n : Node) (k : Nat) :
    u.name ≠ ImportState.outputName n k := by
  have hmem : u.name ∈ s.registry.inputNames := by
    rw [ImportState.graph, List.mem_filter] at hu
    exact List.mem_map_of_mem hu.1
  rw [run.inputNames, List.mem_map] at hmem
  obtain ⟨i, -, hname⟩ := hmem
  exact fun h => outputName_ne_inputName n k (i + 1) (h.symm.trans hname.symm)

/-- A named operand that is a literal bears the name of an output of a node that is dropped. -/
lemma dropped_of_literal (hm : m.WellFormed) (hin : m.InputsNamed) (hgen : m.NoGenerated)
    (run : Run m ps [] s) (hps : ps = before ++ p :: after) (hv : v ∈ p.final.inputs)
    (hne : v.name ≠ "") (hlit : v.literal.isSome) :
    ∃ j q k, ps[j]? = some q ∧ j ∈ s.removed ∧
      v.name = ImportState.outputName q.typed (k + 1) := by
  obtain ⟨r₀, hr⟩ := run.registry_eq_ok
  have reg := run.registered hm hin hr
  have tracks := run.tracks hm hin hgen
  obtain ⟨u, hu, hune, -, hulit, names⟩ := (run.edged hm hin hgen hr hps).named hv hne
  have hliteral := tracks.literal (by simp [hps]) hu (hulit ▸ hlit)
  cases names with
  | input slot mem =>
    exfalso
    rcases hliteral with hmem | hgenerated | ⟨j, q, hq, hw, -⟩
    · exact mem hmem
    · obtain ⟨d, _, hd, hname, -⟩ := reg.declares.input slot
      refine hgen u.name ?_ hgenerated
      rw [← hname]
      simp only [valueNames, ModelMessage.inputNames, List.mem_append]
      exact .inl (.inl (.inl (List.mem_map_of_mem (List.mem_of_getElem? hd))))
    · exact reg.not_input hm (reg.written q (List.mem_of_getElem? hq) (by simp [hw])) _ slot
  | @written q k o mem output name_eq eq =>
    have hmemps : q ∈ ps := by simp [hps, mem]
    have hwritten : u.name ∈ ModelMessage.written m.nodes := by
      rw [← name_eq] at hune ⊢
      exact reg.written q hmemps (mem_namesOf_of_mem (List.mem_of_getElem? output) hune)
    rcases hliteral with hmem | hgenerated | ⟨j, q', hq', hw, hj⟩
    · exact absurd hmem (hm.written_initializers _ hwritten)
    · exact absurd hwritten (not_written_of_generated hgen hgenerated)
    · have hu' : u.name ∈ q'.written := by simp [hw]
      obtain ⟨-, o', ho', hname⟩ := Passage.mem_written.mp hu'
      obtain ⟨l, hl⟩ := List.getElem?_of_mem ho'
      refine ⟨j, q', l, hq', hj, eq.trans ?_⟩
      exact reg.outputName_eq hmemps (List.mem_of_getElem? hq') output hl (name_eq ▸ hune)
        (name_eq.trans hname.symm)

/-- What is called like an operand that a literal has been lifted into is neither an input nor an
output of a node. -/
lemma not_source_of_literal (hm : m.WellFormed) (hin : m.InputsNamed) (hgen : m.NoGenerated)
    (run : Run m ps [] s) {n : Node} (hn : n ∈ (s.graph m.name).nodes) (hv : v ∈ n.inputs)
    (hne : v.name ≠ "") (hlit : v.literal.isSome) :
    (∀ u ∈ (s.graph m.name).inputs, u.name ≠ v.name) ∧
      ∀ n' ∈ (s.graph m.name).nodes, ∀ o ∈ n'.outputs, o.name ≠ v.name := by
  obtain ⟨r₀, hr⟩ := run.registry_eq_ok
  have tracks := run.tracks hm hin hgen
  obtain ⟨i, p, hp, hi, rfl⟩ := (mem_graph_nodes tracks.nodes).mp hn
  obtain ⟨before, after, hps⟩ := List.append_of_mem (List.mem_of_getElem? hp)
  obtain ⟨j, q, k, hq, hj, hv'⟩ := dropped_of_literal hm hin hgen run hps hv hne hlit
  constructor
  · intro u hu hname
    exact not_outputName_of_mem_inputs run hu _ _ (hname.trans hv')
  · intro n' hn' o ho hname
    obtain ⟨l, q', hq', hl, rfl⟩ := (mem_graph_nodes tracks.nodes).mp hn'
    obtain ⟨_, _, hps'⟩ := List.append_of_mem (List.mem_of_getElem? hq')
    obtain ⟨k', _, -, -, hk'⟩ := (run.edged hm hin hgen hr hps').output_name ho (hname ▸ hne)
    obtain ⟨rfl, -⟩ :=
      run.outputName_inj hq' hq ((congrArg Value.name hk').symm.trans (hname.trans hv'))
    exact hl hj

/-- Where no edge dangles, no value is lifted into one operand and read as it is by another. -/
lemma liftsEverywhere_of_noDanglingEdge (hm : m.WellFormed) (hin : m.InputsNamed)
    (hgen : m.NoGenerated) (run : Run m ps [] s)
    (h : (s.graph m.name).NoDanglingEdge) : (s.graph m.name).LiftsEverywhere := by
  intro n hn n' hn' v hv w hw hne hname hlit
  obtain ⟨hinputs, houtputs⟩ := not_source_of_literal hm hin hgen run hn hv hne hlit
  by_contra hbare
  obtain ⟨a, ha⟩ := List.getElem?_of_mem hn'
  have hlt := (List.getElem?_eq_some_iff.mp ha).1
  have hsource := h a hlt n' ha w hw (hname ▸ hne) (by simpa using hbare)
  rcases hsource with ⟨u, hu, hu'⟩ | ⟨n₂, hn₂, o, ho, ho'⟩
  · exact hinputs u hu (hu'.trans hname.symm)
  · exact houtputs n₂ (List.mem_of_mem_take hn₂) o ho (ho'.trans hname.symm)

/-- The edges of an imported graph all lead somewhere exactly if no literal is lifted into one
operand and read as it is by another. -/
theorem noDanglingEdge_iff {g : Graph} {checkFirst : Bool} (hm : m.WellFormed)
    (hin : m.InputsNamed) (hgen : m.NoGenerated) (h : m.importGraph checkFirst = .ok g) :
    g.NoDanglingEdge ↔ g.LiftsEverywhere := by
  simp only [importGraph, Except.bind_eq_ok, Except.pure_eq_ok] at h
  obtain ⟨s, hs, rfl⟩ := h
  obtain ⟨ps, run⟩ := importState_eq_ok.mp (importState_of_check hs)
  exact ⟨liftsEverywhere_of_noDanglingEdge hm hin hgen run,
    noDanglingEdge_of_liftsEverywhere hm hin hgen run⟩

/-- A shape that is lifted into a Reshape and also read by a Neg. -/
def sharedConstant : ModelMessage where
  inputs := [{ name := "x", elementType := 1, dims := [.size 6] }]
  outputs := [{ name := "y", elementType := 1, dims := [.size 2, .size 3] },
    { name := "z", elementType := 7, dims := [.size 2] }]
  nodes := [
    { operator := "Constant", outputs := ["c"],
      attributes := [{ name := "value_ints", kind := .ints, ints := [2, 3] }] },
    { operator := "Reshape", inputs := ["x", "c"], outputs := ["y"] },
    { operator := "Neg", inputs := ["c"], outputs := ["z"] }]

theorem noDanglingEdge_iff_sharedConstant :
    ∃ g, sharedConstant.importGraph false = .ok g ∧ (g.NoDanglingEdge ↔ g.LiftsEverywhere) := by
  obtain ⟨g, hg, -⟩ : ∃ g, sharedConstant.importGraph false = .ok g ∧ True :=
    Except.exists_ok (by decide +kernel)
  exact ⟨g, hg, noDanglingEdge_iff (by decide) (by decide) (by decide) hg⟩

/-- The Neg reads from a node that has been dropped. -/
theorem sharedConstant_dangles :
    sharedConstant.WellFormed ∧ sharedConstant.InputsNamed ∧ sharedConstant.ConstantsClosed ∧
      sharedConstant.OutputsDistinct ∧ sharedConstant.NoGenerated ∧
        ∃ g, sharedConstant.importGraph false = .ok g ∧ ¬ g.NoDanglingEdge :=
  ⟨by decide, by decide, by decide, by decide, by decide, Except.exists_ok (by decide +kernel)⟩

end TensorGraph
