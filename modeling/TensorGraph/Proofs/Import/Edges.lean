import TensorGraph.Proofs.Import.Growth

/-!
# The operands of the nodes of a graph

What an operand of an imported node is called, and where a value of that name comes from
(`Run.edge`).
-/

namespace TensorGraph

open Onnx ModelMessage Registry

variable {m : ModelMessage} {r r₀ : Registry} {s s' : ImportState} {p q : Passage}
  {ps before after : List Passage} {rest : List NodeMessage} {n n' : Node} {v w : Value}
  {x : String} {i k : Nat}

/-- An identity is not led past itself, and a bias is an array of the file: no operand is written by
the passage that reads it. -/
lemma Step.Body.not_written (hm : m.WellFormed) (reg : Registered m r₀ ps s.registry)
    (tracks : Tracks m ps s) (new : Tracks.Fresh m ps p)
    (hw : p.written ⊆ ModelMessage.written m.nodes) (step : Step.Body s p)
    (hv : v ∈ p.typed.inputs) : v.name ∉ p.written := by
  obtain ⟨lead, hlead⟩ := step.leads
  have hled : ∀ {x}, x ∉ p.written → lead x ∉ p.written := by
    intro x hx
    rcases hlead.cases with rfl | ⟨rfl, -⟩
    · unfold ImportState.sourceOf
      cases he : s.elisions.get? x with
      | none => exact hx
      | some e => exact new.read (tracks.source_read he)
    · exact hx
  obtain ⟨k, hk⟩ := List.getElem?_of_mem hv
  cases step.operand hlead hk with
  | read message resolve value =>
    rw [value.name]
    exact hled (reg.name_resolve resolve ▸ new.own (List.mem_of_getElem? message))
  | lifted message resolve _ _ _ _ _ value =>
    rw [value]
    exact hled (reg.name_resolve resolve ▸ new.own (List.mem_of_getElem? message))
  | @bias x u _ _ _ _ _ resolve known value =>
    rw [value]
    have harray := (reg.mem_initializerNames_of_literal hm resolve known).2
    refine hled fun hx' => hm.written_initializers _ (hw hx') ?_
    rwa [reg.name_resolve resolve]
  | shape _ _ _ value =>
    exact new.generated (by simp) (value ▸ generated_shapeOperand _ _)

section Body

variable (hm : m.WellFormed) (hin : m.InputsNamed) (run : Run m ps (p.message :: rest) s)
  (next : p.next = rest.head?) (step : Step.Body s p)

include hm hin run next step

lemma Run.writes : p.Writes ∧ p.written ⊆ ModelMessage.written m.nodes := by
  obtain ⟨r₀, hr⟩ := run.registry_eq_ok
  have hnodes := run.nodes_step next
  have hw := (run.registered hm hin hr).writes_step hm hin hnodes step
  exact ⟨hw, List.Subset.trans hw.written_subset (Registered.written_messages hnodes)⟩

lemma Run.fresh (hgen : m.NoGenerated) : Tracks.Fresh m ps p := by
  obtain ⟨r₀, hr⟩ := run.registry_eq_ok
  exact Tracks.fresh hm hgen (run.registered hm hin hr) (run.writes hm hin next step).1 run next step

lemma Run.not_written (hgen : m.NoGenerated) (hv : v ∈ p.typed.inputs) : v.name ∉ p.written := by
  obtain ⟨r₀, hr⟩ := run.registry_eq_ok
  exact step.not_written hm (run.registered hm hin hr) (run.tracks hm hin hgen)
    (run.fresh hm hin next step hgen) (run.writes hm hin next step).2 hv

end Body

/-- The new name of an operand tells what it stands for, at the time of the passage. -/
lemma Run.names (hm : m.WellFormed) (hin : m.InputsNamed) (hgen : m.NoGenerated)
    (hr : ofModel m = .ok r₀) (run : Run m ps (p.message :: rest) s) (next : p.next = rest.head?)
    (step : Step s p s') (hv : v ∈ p.typed.inputs) (hne : v.name ≠ "") :
    Names m r₀ ps v.name (p.recorded.nameFor v.name) := by
  have closes := run.closes hm hin next step
  have hout := run.not_written hm hin next step.toBody hgen hv
  rw [closes.outside.nameFor hout]
  refine (run.registered hm hin hr).names hne fun i hi => ?_
  rw [← closes.outside.slots hout] at hi
  exact (closes.reads v hv hne).1 i hi

/-- A graph input counts as used once a node reads it. -/
theorem Run.used (hm : m.WellFormed) (hin : m.InputsNamed) (hr : ofModel m = .ok r₀)
    (run : Run m ps rest s) (hp : p ∈ ps) (hv : v ∈ p.typed.inputs) (hne : v.name ≠ "")
    (hs : r₀.slots.get? v.name = some (.input i)) :
    (s.registry.value (.input i)).used = true := by
  induction run with
  | start => simp at hp
  | @step ps q rest s s' run next step ih =>
    have reg := run.registered hm hin hr
    have closes := run.closes hm hin next step
    have hslot := reg.holds.outer hs
    have hfind : q.registry.find? v.name = some (s'.registry.value (.input i)) := by
      rw [step.state]
      exact find?_of_slot (closes.slots_of_some hslot)
    have hout : v.name ∉ q.written := fun hw => by
      have reg' := (Run.step run next step).registered hm hin hr
      exact reg.not_input hm (reg'.written q (by simp) hw) i hs
    rw [List.mem_append, List.mem_singleton] at hp
    rcases hp with hp | rfl
    · rcases closes.find?_outside hout with e | ⟨-, e⟩
      · rw [hfind, find?_of_slot hslot] at e
        rw [Option.some.inj e]
        exact ih hp
      · rw [hfind, find?_of_slot hslot] at e
        rw [Option.some.inj e]
    · have hrecorded : p.recorded.slots.get? v.name = some (.input i) := by
        rw [closes.outside.slots hout, hslot]
      have hmarked : p.marked.slots.get? v.name = some (.input i) := by
        rw [closes.marks.slots, hrecorded]
      rw [closes.settles.outside.find? hout, find?_of_slot hmarked] at hfind
      rw [← Option.some.inj hfind]
      exact (closes.reads v hv hne).2 i hrecorded

/-- What a passage does to the graph inputs, in a view that does not see what is copied, is done by
the renaming of its operands. -/
lemma Step.inputs_registry {β : Type} {view : Value → β}
    (hview : ∀ v w, view (v.copyFrom w) = view v) (h : Step s p s') :
    p.recorded.inputs.map view = s.registry.inputs.map view ∧
      s'.registry.inputs = p.marked.inputs := by
  refine ⟨map_inputs_record hview (h.registry_lifting ▸ h.record), ?_⟩
  have hrename := h.renameOutputs
  rw [h.state]
  split at hrename
  · exact inputs_renameLiteral hrename
  · exact inputs_renameOutputs hrename

lemma Run.inputNames (run : Run m ps rest s) :
    s.registry.inputNames = (List.range m.inputs.length).map fun i => s!"input{i + 1}" := by
  induction run with
  | start h => exact (ofModel_declares h).1.input_names
  | @step ps p rest s s' run next step ih =>
    have hview : ∀ v w : Value, (v.copyFrom w).name = v.name := fun _ _ => rfl
    obtain ⟨hrecorded, hmarked⟩ := step.inputs_registry hview
    have hnames := (step.marks run.sound).inputNames
    unfold Registry.inputNames at ih hnames ⊢
    rw [hmarked, hnames, hrecorded, ih]

/-- A graph input is called by its place. -/
lemma Run.name_input {u : Value} (run : Run m ps rest s)
    (hu : s.registry.inputs[i]? = some u) : u.name = s!"input{i + 1}" := by
  have hname : s.registry.inputNames[i]? = some u.name := by
    rw [Registry.inputNames, List.getElem?_map, hu, Option.map_some]
  rw [run.inputNames, List.getElem?_map, Option.map_eq_some_iff] at hname
  obtain ⟨j, hj, hname⟩ := hname
  obtain ⟨hlt, hj⟩ := List.getElem?_eq_some_iff.mp hj
  rw [List.getElem_range] at hj
  exact hj ▸ hname.symm

/-! ## The nodes that are kept -/

lemma Run.nodes (run : Run m ps rest s) : s.nodes = ps.map Passage.final := by
  induction run with
  | start => rfl
  | step _ _ step ih => rw [step.nodes, ih, List.map_append, List.map_singleton]

lemma mem_kept {removed : List Nat} :
    n ∈ ((ps.map Passage.final).zipIdx.filter (·.2 ∉ removed)).map Prod.fst ↔
      ∃ k p, ps[k]? = some p ∧ k ∉ removed ∧ n = p.final := by
  simp only [List.mem_map, List.mem_filter, Prod.exists, List.mem_zipIdx_iff_getElem?,
    List.getElem?_map, Option.map_eq_some_iff, decide_eq_true_eq]
  constructor
  · rintro ⟨n, k, ⟨⟨p, hp, rfl⟩, hk⟩, rfl⟩
    exact ⟨k, p, hp, hk, rfl⟩
  · rintro ⟨k, p, hp, hk, rfl⟩
    exact ⟨p.final, k, ⟨⟨p, hp, rfl⟩, hk⟩, rfl⟩

lemma mem_graph_nodes {name : String} (hnodes : s.nodes = ps.map Passage.final) :
    n ∈ (s.graph name).nodes ↔ ∃ k p, ps[k]? = some p ∧ k ∉ s.removed ∧ n = p.final := by
  simp only [ImportState.graph, hnodes]
  exact mem_kept

/-- The nodes of the graph are in the order of the passages. -/
lemma graph_nodes_sublist (hnodes : s.nodes = ps.map Passage.final) (name : String) :
    (s.graph name).nodes.Sublist (ps.map Passage.final) := by
  have hsub : (s.graph name).nodes.Sublist (s.nodes.zipIdx.map Prod.fst) :=
    List.filter_sublist.map Prod.fst
  rwa [List.zipIdx_map_fst, hnodes] at hsub

/-- The nodes before a node of the graph are those of the passages before it that are not dropped. -/
lemma graph_nodes_split {name : String} (hnodes : s.nodes = ps.map Passage.final)
    (h : (s.graph name).nodes[i]? = some n) :
    ∃ before p after, ps = before ++ p :: after ∧ before.length ∉ s.removed ∧ n = p.final ∧
      ∀ n', n' ∈ (s.graph name).nodes.take i ↔
        ∃ k q, before[k]? = some q ∧ k ∉ s.removed ∧ n' = q.final := by
  obtain ⟨hlt, hn⟩ := List.getElem?_eq_some_iff.mp h
  have h : (s.graph name).nodes = (s.graph name).nodes.take i ++
      n :: (s.graph name).nodes.drop (i + 1) := by
    conv_lhs => rw [← List.take_append_drop i (s.graph name).nodes, List.drop_eq_getElem_cons hlt,
      hn]
  generalize (s.graph name).nodes.take i = as, (s.graph name).nodes.drop (i + 1) = bs at h
  simp only [ImportState.graph, hnodes] at h
  obtain ⟨front, _, hfilter, hfront, hback⟩ := List.map_eq_append_iff.mp h
  obtain ⟨⟨n, i⟩, _, rfl, rfl, -⟩ := List.map_eq_cons_iff.mp hback
  obtain ⟨before, _, hzip, hbefore, htail⟩ := List.filter_eq_append_iff.mp hfilter
  obtain ⟨between, after, rfl, hbetween, hkept, -⟩ := List.filter_eq_cons_iff.mp htail
  rw [← List.append_assoc] at hzip
  obtain ⟨first, _, hmap, hfirst, hlast⟩ := List.zipIdx_eq_append_iff.mp hzip
  obtain ⟨n', last, rfl, heq, -⟩ := List.zipIdx_eq_cons_iff.mp hlast.symm
  obtain ⟨rfl, hi⟩ : n = n' ∧ i = 0 + first.length := by simpa using heq
  obtain ⟨ps₁, _, rfl, rfl, hmap'⟩ := List.map_eq_append_iff.mp hmap
  obtain ⟨p, ps₂, rfl, rfl, -⟩ := List.map_eq_cons_iff.mp hmap'
  rw [Nat.zero_add, List.length_map] at hi
  refine ⟨ps₁, p, ps₂, rfl, by simpa [hi] using hkept, rfl, fun n' => ?_⟩
  have hfilter₁ : ((ps₁.map Passage.final).zipIdx.filter (·.2 ∉ s.removed)) = front := by
    rw [← hfirst, List.filter_append, hbefore, List.filter_eq_nil_iff.mpr hbetween,
      List.append_nil]
  rw [← hfront, ← hfilter₁]
  exact mem_kept

/-- A node that literals are lifted into is not itself one that writes a literal. -/
lemma Step.Body.not_transparent (step : Step.Body s p)
    (h : ImportState.liftsConstants p.lifted.operator = true) :
    ImportState.isTransparent p.typed.operator = false := by
  cases ht : ImportState.isTransparent p.typed.operator with
  | false => rfl
  | true =>
    have hop : p.typed.operator = p.lifted.operator :=
      step.operator_typed.trans (step.transparent ht).2.1
    rw [hop] at ht
    revert h ht
    cases p.lifted.operator <;> simp [ImportState.liftsConstants, ImportState.isTransparent]

lemma name_renamedOperand : (r.renamedOperand v).name = (r.nameFor v.name).getD "" := by
  unfold Registry.renamedOperand
  cases r.nameFor v.name <;> rfl

lemma literal_renamedOperand : (r.renamedOperand v).literal = v.literal := by
  unfold Registry.renamedOperand
  cases r.nameFor v.name <;> rfl

lemma type_renamedOperand : (r.renamedOperand v).type = v.type := by
  unfold Registry.renamedOperand
  cases r.nameFor v.name <;> rfl

/-- The operands of a node in the graph, and what they stand for. -/
structure Edged (m : ModelMessage) (r₀ : Registry) (before : List Passage) (p : Passage) : Prop where
  inputs : p.final.inputs = p.typed.inputs.map p.recorded.renamedOperand
  outputs : p.final.outputs = renamedOutputs p.typed 1 p.typed.outputs
  names : ∀ {v}, v ∈ p.typed.inputs → v.name ≠ "" →
    Names m r₀ before v.name (p.recorded.nameFor v.name)

/-- The operands and the outputs of every node of a run over a well-formed model. -/
theorem Run.edged (hm : m.WellFormed) (hin : m.InputsNamed) (hgen : m.NoGenerated)
    (hr : ofModel m = .ok r₀) (run : Run m ps rest s) (h : ps = before ++ p :: after) :
    Edged m r₀ before p := by
  obtain ⟨rest₁, s₁, s₂, run₁, next, step, -⟩ := run.split h
  have closes := run₁.closes hm hin next step
  exact ⟨closes.inputs, closes.outputs, fun hv hne => run₁.names hm hin hgen hr next step hv hne⟩

/-- Where what the file calls `x` has its new name from: from a graph input, or from what one of the
passages `ps` writes. -/
inductive NamedAfter (m : ModelMessage) (r₀ : Registry) (ps : List Passage) (x name : String) :
    Prop where
  | input {i : Nat} (slot : r₀.slots.get? x = some (.input i)) (mem : x ∉ m.initializerNames)
      (eq : name = s!"input{i + 1}")
  | written {q : Passage} {k : Nat} {v : Value} (mem : q ∈ ps)
      (output : q.typed.outputs[k]? = some v) (name_eq : v.name = x)
      (eq : name = ImportState.outputName q.typed (k + 1))

lemma Names.namedAfter {name : String} (h : Names m r₀ ps x (some name)) :
    NamedAfter m r₀ ps x name := by
  cases h with
  | array _ eq => cases eq
  | unknown _ _ _ eq => cases eq
  | input slot mem eq => exact .input slot mem (Option.some.inj eq)
  | written mem output name_eq eq => exact .written mem output name_eq (Option.some.inj eq)

namespace Edged

lemma named (h : Edged m r₀ before p) (hw : w ∈ p.final.inputs) (hne : w.name ≠ "") :
    ∃ v ∈ p.typed.inputs, v.name ≠ "" ∧ w.type = v.type ∧ w.literal = v.literal ∧
      NamedAfter m r₀ before v.name w.name := by
  rw [h.inputs] at hw
  obtain ⟨v, hv, rfl⟩ := List.mem_map.mp hw
  rw [name_renamedOperand] at hne ⊢
  have hv' : v.name ≠ "" := by
    intro e
    simp [Registry.nameFor, e] at hne
  cases hname : p.recorded.nameFor v.name with
  | none => simp [hname] at hne
  | some name =>
    have hnames := h.names hv hv'
    rw [hname] at hnames
    exact ⟨v, hv, hv', type_renamedOperand, literal_renamedOperand, hnames.namedAfter⟩

/-- An operand that names no array, no graph input and nothing written before loses its name. -/
lemma name_of_unwritten (h : Edged m r₀ before p) (hv : v ∈ p.typed.inputs)
    (harray : v.name ∉ m.initializerNames) (hinput : ∀ i, r₀.slots.get? v.name ≠ some (.input i))
    (hunwritten : ∀ q ∈ before, v.name ∉ q.written) : (p.recorded.renamedOperand v).name = "" := by
  rw [name_renamedOperand]
  by_cases hne : v.name = ""
  · simp [Registry.nameFor, hne]
  cases h.names hv hne with
  | array mem => exact absurd mem harray
  | unknown _ _ _ eq => rw [eq]; rfl
  | input slot => exact absurd slot (hinput _)
  | @written q k u mem output name_eq =>
    refine absurd ?_ (hunwritten q mem)
    rw [← name_eq] at hne ⊢
    exact mem_namesOf_of_mem (List.mem_of_getElem? output) hne

lemma output {u : Value} (h : Edged m r₀ before p) (hu : p.typed.outputs[k]? = some u)
    (hne : u.name ≠ "") :
    ∃ o ∈ p.final.outputs, o.name = ImportState.outputName p.typed (k + 1) := by
  have hget : p.final.outputs[k]? = some
      { u with name := ImportState.outputName p.typed (1 + k) } := by
    rw [h.outputs, getElem?_renamedOutputs, hu]
    simp [hne]
  exact ⟨_, List.mem_of_getElem? hget, by rw [Nat.add_comm]⟩

lemma output_name {o : Value} (h : Edged m r₀ before p) (ho : o ∈ p.final.outputs)
    (hne : o.name ≠ "") : ∃ (k : Nat) (u : Value), p.typed.outputs[k]? = some u ∧ u.name ≠ "" ∧
      o = { u with name := ImportState.outputName p.typed (k + 1) } := by
  obtain ⟨k, hk⟩ := List.getElem?_of_mem ho
  rw [h.outputs, getElem?_renamedOutputs, Option.map_eq_some_iff] at hk
  obtain ⟨u, hu, rfl⟩ := hk
  split at hne
  · next hempty => exact absurd hempty hne
  · next hu' => exact ⟨k, u, hu, hu', by rw [if_neg hu', Nat.add_comm]⟩

end Edged

lemma Registered.outputName_eq {u : Value} {l : Nat} (h : Registered m r₀ ps r) (hp : p ∈ ps)
    (hq : q ∈ ps) (hu : p.typed.outputs[k]? = some u) (hv : q.typed.outputs[l]? = some v)
    (hne : u.name ≠ "") (heq : u.name = v.name) :
    ImportState.outputName p.typed (k + 1) = ImportState.outputName q.typed (l + 1) := by
  obtain ⟨-, used, hfind⟩ := h.holds.written hp hu hne
  obtain ⟨-, used', hfind'⟩ := h.holds.written hq hv (heq ▸ hne)
  rw [heq, hfind'] at hfind
  exact (congrArg Value.name (Option.some.inj hfind)).symm

end TensorGraph
