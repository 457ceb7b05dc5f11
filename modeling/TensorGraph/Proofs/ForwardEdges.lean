import TensorGraph.Proofs.Import.Standing
import TensorGraph.Proofs.LostEdges
import TensorGraph.Proofs.Dangling
import TensorGraph.Proofs.Order

/-!
# Forward edges

The edges of an imported graph go forward, and both ends of an edge have one type, although the node
that reads a value has been given its type at another time than the node that writes it
(`forward_edges`).
-/

namespace TensorGraph

open Onnx ModelMessage Registry

/-- An operand that is called like an output is read after it has been written, and has its type. -/
def Graph.EdgesForward (g : Graph) : Prop :=
  ∀ (i j : Nat), ∀ n ∈ g.nodes[i]?, ∀ n' ∈ g.nodes[j]?, ∀ o ∈ n.outputs, ∀ v ∈ n'.inputs,
    v.name ≠ "" → v.name = o.name → i < j ∧ v.type = o.type

/-- An operand that is called like one of the `count` inputs of a model is called like an input of the
graph, and has the type of any such. -/
def Graph.ReadsInputs (g : Graph) (count : Nat) : Prop :=
  ∀ n ∈ g.nodes, ∀ v ∈ n.inputs, ∀ i < count, v.name = s!"input{i + 1}" →
    (∃ u ∈ g.inputs, u.name = v.name) ∧ ∀ u ∈ g.inputs, u.name = v.name → u.type = v.type

instance (g : Graph) (count : Nat) : Decidable (g.ReadsInputs count) := by
  unfold Graph.ReadsInputs
  infer_instance

variable {m : ModelMessage} {r₀ : Registry} {s s' : ImportState} {p q : Passage}
  {ps before after : List Passage} {rest : List NodeMessage} {u v w : Value} {i j k : Nat}
  {checkFirst : Bool} {g : Graph}

/-- The operand is read with its type under the name that it is led to, unless a literal has been
lifted into it. -/
lemma Run.resolve_operand (hm : m.WellFormed) (hin : m.InputsNamed) (hgen : m.NoGenerated)
    (run : Run m ps (p.message :: rest) s) (step : Step s p s')
    (hlead : Step.Leads s p s.sourceOf) (hv : v ∈ p.typed.inputs)
    (harray : v.name ∉ m.initializerNames) (hgenerated : ¬ Generated v.name) :
    (∃ w, s.registry.resolve v.name = .ok w ∧ w.type = v.type) ∨
      ∃ place, s.constants.get? v.name = some place ∧ place ∈ s'.removed := by
  obtain ⟨r₀, hr⟩ := run.registry_eq_ok
  have reg := run.registered hm hin hr
  have tracks := run.tracks hm hin hgen
  have hbare : ∀ {x u}, s.registry.resolve x = .ok u → v.name = s.sourceOf x → u.literal = none := by
    intro x u hu hname
    by_contra hlit
    have hmem := tracks.leads_literal hm reg hlead hu (Option.isSome_iff_ne_none.mpr hlit)
    exact harray (by rwa [hname])
  obtain ⟨k, hk⟩ := List.getElem?_of_mem hv
  cases step.operand hlead hk with
  | shape _ _ _ value => exact absurd (value ▸ generated_shapeOperand _ _) hgenerated
  | @lifted x u a place n _ _ _ known _ _ dropped value =>
    refine .inr ⟨place, ?_, ?_⟩
    · rw [value]
      exact known
    · rw [step.state]
      exact dropped
  | @bias x u _ _ _ _ _ resolve known value =>
    have hname : v.name = s.sourceOf x := by rw [value, ← reg.name_resolve resolve]
    simp [hbare resolve hname] at known
  | @read x u _ resolve value =>
    have hname : v.name = s.sourceOf x := by rw [value.name, ← reg.name_resolve resolve]
    have htype : v.type = u.type := by
      rcases value with rfl | rfl
      · rfl
      · simp [Value.transpose, hbare resolve hname]
    rw [htype, hname]
    left
    unfold ImportState.sourceOf
    cases he : s.elisions.get? x with
    | none => exact ⟨u, resolve, rfl⟩
    | some e =>
      obtain ⟨t, hx, hsource⟩ := run.sameType_elided hm he
      obtain ⟨u', hu', -, rfl, -⟩ := hx.resolve
      obtain ⟨w, hw, -, hwtype, -⟩ := hsource.resolve
      obtain rfl := Except.ok.inj (hu'.symm.trans resolve)
      exact ⟨w, hw, hwtype⟩

lemma Registered.type_written {r : Registry} (h : Registered m r₀ ps r) (hq : q ∈ ps)
    (hu : q.typed.outputs[k]? = some u) (hne : u.name ≠ "") (hw : r.resolve u.name = .ok w) :
    w.type = u.type := by
  obtain ⟨hin, used, hfind⟩ := h.holds.written hq hu hne
  obtain ⟨hslot, -⟩ | ⟨i, hslot, -⟩ | ⟨i, hslot, rfl⟩ := resolve_ok hne hw
  · simp [find?_of_none hslot] at hfind
  · exact absurd hslot (hin i)
  · rw [find?_of_slot hslot] at hfind
    simp [Option.some.inj hfind]

lemma Registered.type_input {r : Registry} {x : String} (h : Registered m r₀ ps r)
    (hslot : r₀.slots.get? x = some (.input i)) (hne : x ≠ "") (hw : r.resolve x = .ok w) :
    w.type = (r₀.value (.input i)).type := by
  have hslot' := h.holds.outer hslot
  obtain ⟨-, used, hvalue⟩ := h.of_input hslot'
  obtain ⟨hs, -⟩ | ⟨j, hs, rfl⟩ | ⟨j, hs, -⟩ := resolve_ok hne hw
  · simp [hslot'] at hs
  · obtain rfl : i = j := by simpa [hslot'] using hs
    simp [hvalue]
  · simp [hslot'] at hs

/-! ## Edges from nodes -/

section Runs

variable (hm : m.WellFormed) (hin : m.InputsNamed) (hgen : m.NoGenerated)

include hm hin hgen

/-- The operand of a node that is kept has the type of what is written under its name, unless the node
that writes it is dropped. -/
lemma type_of_written (hr : ofModel m = .ok r₀) (run : Run m ps [] s)
    (hps : ps = before ++ p :: after) (hkept : before.length ∉ s.removed)
    (hv : v ∈ p.typed.inputs) (hq : before[i]? = some q) (hi : i ∉ s.removed)
    (hu : q.typed.outputs[k]? = some u) (hname : u.name = v.name) (hne : v.name ≠ "") :
    v.type = u.type := by
  have reg := run.registered hm hin hr
  have hmem : q ∈ ps := by simp [hps, List.mem_of_getElem? hq]
  have hqw : v.name ∈ q.written := by
    rw [← hname] at hne ⊢
    exact mem_namesOf_of_mem (List.mem_of_getElem? hu) hne
  have hwritten := reg.written q hmem hqw
  obtain ⟨rest₁, s₁, s₂, run₁, step, hlead, hremoved, -⟩ :=
    lead_of_kept hm hin hgen run hps hkept
  have reg₁ := run₁.registered hm hin hr
  rcases run₁.resolve_operand hm hin hgen step hlead hv (hm.written_initializers _ hwritten)
    (fun h => not_written_of_generated hgen h hwritten) with ⟨w, hw, htype⟩ | ⟨place, hplace, hdrop⟩
  · rw [← htype]
    exact reg₁.type_written (List.mem_of_getElem? hq) hu (hname ▸ hne) (hname ▸ hw)
  -- the Constant whose literal has been lifted is the one node that writes the name
  · exfalso
    obtain ⟨q', hq', hw', -⟩ := (run₁.tracks hm hin hgen).constant hplace
    obtain ⟨-, u', hu', hname'⟩ := Passage.mem_written.mp (by simp [hw'] : v.name ∈ q'.written)
    obtain ⟨l, hl⟩ := List.getElem?_of_mem hu'
    have hout := reg₁.outputName_eq (List.mem_of_getElem? hq) (List.mem_of_getElem? hq') hu hl
      (hname ▸ hne) (hname.trans hname'.symm)
    obtain ⟨rfl, -⟩ := run₁.outputName_inj hq hq' hout
    exact hi (hremoved hdrop)

lemma nodup_graph_nodes (run : Run m ps rest s) : (s.graph m.name).nodes.Nodup := by
  have hnodes : (ps.map Passage.final).Nodup := by
    refine List.Nodup.of_map Node.name ?_
    rw [List.map_map]
    exact run.nodup_names
  exact hnodes.sublist (graph_nodes_sublist (run.tracks hm hin hgen).nodes m.name)

lemma edgesForward (run : Run m ps [] s) : (s.graph m.name).EdgesForward := by
  obtain ⟨r₀, hr⟩ := run.registry_eq_ok
  have tracks := run.tracks hm hin hgen
  intro i j n hn n' hn' o ho w hw hne hname
  obtain ⟨before, p, after, hps, hkept, rfl, hbefore⟩ := graph_nodes_split tracks.nodes hn'
  obtain ⟨l, q, hq, hl, rfl⟩ :=
    (mem_graph_nodes tracks.nodes).mp (List.mem_of_getElem? (Option.mem_def.mp hn))
  obtain ⟨front, back, hps'⟩ := List.append_of_mem (List.mem_of_getElem? hq)
  obtain ⟨a, u, hu, hune, rfl⟩ := (run.edged hm hin hgen hr hps').output_name ho (hname ▸ hne)
  obtain ⟨v, hv, hvne, htype, -, names⟩ := (run.edged hm hin hgen hr hps).named hw hne
  cases names with
  | input _ _ eq => exact absurd (hname.symm.trans eq) (outputName_ne_inputName _ _ _)
  | @written q' k u' mem output name_eq eq =>
    obtain ⟨b, hb⟩ := List.getElem?_of_mem mem
    have hb' : ps[b]? = some q' := by
      rw [hps, getElem?_append_of_some hb]
    obtain ⟨rfl, hnum⟩ := run.outputName_inj hq hb' (hname.symm.trans eq)
    obtain rfl : a = k := Nat.succ.inj hnum
    obtain rfl : q = q' := Option.some.inj (hq.symm.trans hb')
    obtain rfl : u = u' := Option.some.inj (hu.symm.trans output)
    constructor
    · obtain ⟨c, hc⟩ := List.getElem?_of_mem ((hbefore q.final).mpr ⟨l, q, hb, hl, rfl⟩)
      rw [List.getElem?_take] at hc
      split at hc
      swap
      · simp at hc
      next hlt =>
      have hi := (List.getElem?_eq_some_iff.mp (Option.mem_def.mp hn)).1
      have := nodup_graph_nodes hm hin hgen run
      rwa [(List.getElem?_inj hi this).mp ((Option.mem_def.mp hn).trans hc.symm)]
    · rw [htype, type_of_written hm hin hgen hr run hps hkept hv hb hl output name_eq hvne]

end Runs

/-- No node of an ordered graph reads what a later one writes. -/
lemma Graph.EdgesForward.isOrdered (h : g.EdgesForward) : isOrdered g.nodes = true := by
  have hcheck : checkOrder g.nodes = .ok () := by
    refine checkOrder_eq_ok_iff.mpr fun x i j hahead => ?_
    obtain ⟨n, hn, v, hv, rfl⟩ := hahead.reads
    obtain ⟨n', hn', o, ho, hname⟩ := hahead.writes
    have hlt := (h j i n' hn' n hn o ho v hv hahead.named hname.symm).1
    exact absurd hahead.lt (Nat.lt_asymm hlt)
  rw [TensorGraph.isOrdered, hcheck]
  rfl

section Runs

variable (hm : m.WellFormed) (hin : m.InputsNamed) (hgen : m.NoGenerated)

include hm hin hgen

/-- The operand of a node that is kept has the type of the graph input that it stands for. -/
lemma type_of_input (hr : ofModel m = .ok r₀) (run : Run m ps [] s)
    (hps : ps = before ++ p :: after) (hkept : before.length ∉ s.removed)
    (hv : v ∈ p.typed.inputs) (hslot : r₀.slots.get? v.name = some (.input i))
    (harray : v.name ∉ m.initializerNames) (hne : v.name ≠ "") :
    v.type = (r₀.value (.input i)).type := by
  obtain ⟨rest₁, s₁, s₂, run₁, step, hlead, -, -⟩ := lead_of_kept hm hin hgen run hps hkept
  have reg₁ := run₁.registered hm hin hr
  have hgenerated : ¬ Generated v.name := by
    obtain ⟨d, _, hd, hname, -⟩ := reg₁.declares.input hslot
    refine hgen _ ?_
    rw [← hname]
    simp only [valueNames, ModelMessage.inputNames, List.mem_append]
    exact .inl (.inl (.inl (List.mem_map_of_mem (List.mem_of_getElem? hd))))
  rcases run₁.resolve_operand hm hin hgen step hlead hv harray hgenerated with
    ⟨w, hw, htype⟩ | ⟨place, hplace, -⟩
  · rw [← htype]
    exact reg₁.type_input hslot hne hw
  · obtain ⟨q, hq, hw, -⟩ := (run₁.tracks hm hin hgen).constant hplace
    have hwritten := reg₁.written q (List.mem_of_getElem? hq) (by simp [hw] : v.name ∈ q.written)
    exact absurd hslot (reg₁.not_input hm hwritten i)

omit hgen in
/-- The input of a graph that is called by a place has the type of the model's input there. -/
lemma type_of_mem_inputs {x : String} (hr : ofModel m = .ok r₀) (run : Run m ps [] s)
    (hslot : r₀.slots.get? x = some (.input i)) (hu : u ∈ (s.graph m.name).inputs)
    (hname : u.name = s!"input{i + 1}") : u.type = (r₀.value (.input i)).type := by
  have reg := run.registered hm hin hr
  obtain ⟨-, used, hvalue⟩ := reg.of_input (reg.holds.outer hslot)
  rw [ImportState.graph, List.mem_filter] at hu
  obtain ⟨l, hl⟩ := List.getElem?_of_mem hu.1
  have hnames : s.registry.inputNames[l]? = some u.name := by
    rw [Registry.inputNames, List.getElem?_map, hl]
    rfl
  rw [run.inputNames, List.getElem?_map, Option.map_eq_some_iff] at hnames
  obtain ⟨l', hl', hplace⟩ := hnames
  obtain rfl : l' = i := Nat.succ.inj (inputName_inj (hplace.trans hname))
  obtain rfl : l = l' := by
    obtain ⟨hlt, h⟩ := List.getElem?_eq_some_iff.mp hl'
    simpa using h
  have hvalue' : s.registry.value (.input l) = u := by
    simp [Registry.value, List.getD_eq_getElem?_getD, hl]
  rw [← hvalue', hvalue]

lemma readsInputs (run : Run m ps [] s) : (s.graph m.name).ReadsInputs m.inputs.length := by
  obtain ⟨r₀, hr⟩ := run.registry_eq_ok
  have tracks := run.tracks hm hin hgen
  intro n hn w hw i hi hname
  obtain ⟨l, p, hp, hkept, rfl⟩ := (mem_graph_nodes tracks.nodes).mp hn
  obtain ⟨before, after, hps, rfl⟩ := split_of_getElem? hp
  obtain ⟨v, hv, hvne, htype, slot, mem⟩ := (run.edged hm hin hgen hr hps).reads_input hw hname
  rw [hname, htype, type_of_input hm hin hgen hr run hps hkept hv slot mem hvne]
  exact ⟨mem_inputs_of_read hm hin hr run (List.mem_of_getElem? hp) hv hvne slot,
    fun u hu => type_of_mem_inputs hm hin hr run slot hu⟩

end Runs

/-- In the graph of a well-formed model whose graph inputs have names, edges go forward, and both ends
of an edge have one type. -/
theorem forward_edges (hm : m.WellFormed) (hin : m.InputsNamed) (hgen : m.NoGenerated)
    (h : m.importGraph checkFirst = .ok g) :
    g.EdgesForward ∧ g.ReadsInputs m.inputs.length ∧ isOrdered g.nodes = true := by
  simp only [importGraph, Except.bind_eq_ok, Except.pure_eq_ok] at h
  obtain ⟨s, hs, rfl⟩ := h
  obtain ⟨ps, run⟩ := importState_eq_ok.mp (importState_of_check hs)
  have hforward := edgesForward hm hin hgen run
  exact ⟨hforward, readsInputs hm hin hgen run, hforward.isOrdered⟩

/-- A Relu and an identity before a Reshape to a shape that a Constant holds. -/
def reshapedRelu : ModelMessage where
  inputs := [{ name := "x", elementType := 1, dims := [.size 6] }]
  outputs := [{ name := "y", elementType := 1, dims := [.size 2, .size 3] }]
  nodes := [
    { operator := "Relu", inputs := ["x"], outputs := ["h"] },
    { operator := "Identity", inputs := ["h"], outputs := ["k"] },
    { operator := "Constant", outputs := ["c"],
      attributes := [{ name := "value_ints", kind := .ints, ints := [2, 3] }] },
    { operator := "Reshape", inputs := ["k", "c"], outputs := ["y"] }]

theorem forward_edges_reshapedRelu :
    ∃ g, reshapedRelu.importGraph false = .ok g ∧
      (∃ n ∈ g.nodes, ∃ v ∈ n.inputs, v.name = "relu1_out1") ∧
        g.EdgesForward ∧ g.ReadsInputs 1 ∧ isOrdered g.nodes = true := by
  obtain ⟨g, hg, hread⟩ : ∃ g, reshapedRelu.importGraph false = .ok g ∧
      ∃ n ∈ g.nodes, ∃ v ∈ n.inputs, v.name = "relu1_out1" :=
    Except.exists_ok (by decide +kernel)
  exact ⟨g, hg, hread, forward_edges (by decide) (by decide) (by decide) hg⟩

/-- An Unsqueeze of an array that is called as the first graph input will be. That input has no name,
and the output of the Unsqueeze has none either. -/
def inputLike : ModelMessage where
  inputs := [
    { name := "", elementType := 7, dims := [.size 1, .size 2] },
    { name := "a", elementType := 7, dims := [.size 1] }]
  initializers := [{ name := "input1", dataType := 7, dims := [2], int64s := [1, 2] }]
  nodes := [{ operator := "Unsqueeze", inputs := ["input1", "a"], outputs := [""] }]

/-- The array keeps its name, and the graph has no input of that name. -/
theorem inputLike_reads :
    inputLike.WellFormed ∧ inputLike.ConstantsClosed ∧ inputLike.OutputsDistinct ∧
      inputLike.NoGenerated ∧ ∃ g, inputLike.importGraph false = .ok g ∧
        ¬ g.ReadsInputs inputLike.inputs.length :=
  ⟨by decide, by decide, by decide, by decide, Except.exists_ok (by decide +kernel)⟩

end TensorGraph
