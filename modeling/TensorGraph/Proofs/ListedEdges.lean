import TensorGraph.Proofs.Dangling
import TensorGraph.Proofs.Order
import TensorGraph.Proofs.UniqueNames

/-!
# Listed edges

The edges of a graph list the readers of each input and of each output of a node. A name that a node
reads is therefore listed as often as it is read if and only if it has one source in the graph
(`importGraph_listsReads_iff`). An operand that a literal has been lifted into keeps the name of a
node that is dropped, which has none.
-/

namespace TensorGraph

open Onnx ModelMessage Registry

/-- The number of operands called `x`. -/
def Node.reads (n : Node) (x : String) : Nat := n.inputs.countP (·.name = x)

/-- How often the edges of the value `x` list the reader `name`. -/
def timesListed (es : List Edge) (x name : String) : Nat :=
  ((es.filter (·.value = x)).flatMap Edge.readers).count name

/-- The names of the inputs and of what the nodes write. -/
def Graph.sourceNames (g : Graph) : List String := g.inputs.map Value.name ++ writtenNames g.nodes

/-- The edges list every node for a value as often as it reads the value. -/
def Graph.ListsReads (g : Graph) : Prop :=
  ∃ es, g.edges = .ok es ∧ ∀ n ∈ g.nodes, ∀ x, x ≠ "" → timesListed es x n.name = n.reads x

variable {m : ModelMessage} {s : ImportState} {p : Passage} {ps : List Passage} {g : Graph}
  {t : Table String (List Nat)} {nodes : List Node} {n : Node} {vs : List Value} {es : List Edge}
  {x name : String} {i : Nat}

lemma getD_noteReads (hx : x ≠ "") : ((noteReads i t vs).get? x).getD [] =
    (t.get? x).getD [] ++ List.replicate (vs.countP (·.name = x)) i := by
  induction vs generalizing t with
  | nil => simp [noteReads]
  | cons v vs ih =>
    rw [noteReads_cons, ih, List.countP_cons]
    by_cases hv : v.name = x
    · simp only [hx, if_false, hv, Table.get?_insert_self, Option.getD_some, decide_true, if_true,
        List.append_assoc, List.replicate_succ, List.singleton_append]
    · split
      · simp [hv]
      · rw [Table.get?_insert_of_ne _ _ (Ne.symm hv)]
        simp [hv]

lemma getD_readers (hx : x ≠ "") : ((readers nodes).get? x).getD [] =
    nodes.zipIdx.flatMap fun e => List.replicate (e.1.reads x) e.2 := by
  have hfold : ∀ (es : List (Node × Nat)) (t : Table String (List Nat)),
      ((es.foldl noteReadsOf t).get? x).getD [] =
        (t.get? x).getD [] ++ es.flatMap fun e => List.replicate (e.1.reads x) e.2 := by
    intro es
    induction es with
    | nil => simp
    | cons e es ih =>
      intro t
      rw [List.foldl_cons, ih, noteReadsOf, getD_noteReads hx, List.append_assoc]
      rfl
  rw [readers_eq, hfold]
  simp

/-- Every node stands among the readers of a value as often as it reads it. -/
lemma Graph.readerNames_eq (hx : x ≠ "") :
    g.readerNames x = g.nodes.flatMap fun n => List.replicate (n.reads x) n.name := by
  rw [readerNames, getD_readers hx, List.filterMap_flatMap]
  conv_rhs => rw [← List.zipIdx_map_fst 0 g.nodes, List.flatMap_map]
  apply List.flatMap_congr
  rintro ⟨n, i⟩ he
  have hn : g.nodes[i]? = some n := List.mem_zipIdx_iff_getElem?.mp he
  induction n.reads x with
  | zero => rfl
  | succ k ih =>
    rw [List.replicate_succ, List.filterMap_cons, hn, ih, List.replicate_succ]
    rfl

/-- Nodes with different names are told apart among the readers. -/
lemma Graph.count_readerNames (hnames : (g.nodes.map Node.name).Nodup) (hn : n ∈ g.nodes)
    (hx : x ≠ "") : (g.readerNames x).count n.name = n.reads x := by
  rw [readerNames_eq hx]
  generalize g.nodes = nodes at hnames hn
  induction nodes with
  | nil => cases hn
  | cons n' nodes ih =>
    rw [List.map_cons, List.nodup_cons] at hnames
    rw [List.flatMap_cons, List.count_append, List.count_replicate]
    rcases List.mem_cons.mp hn with rfl | hn
    · have hrest : (nodes.flatMap fun n => List.replicate (n.reads x) n.name).count n.name = 0 := by
        rw [List.count_eq_zero, List.mem_flatMap]
        rintro ⟨n', hn', hmem⟩
        exact hnames.1 (List.mem_map.mpr ⟨n', hn', (List.eq_of_mem_replicate hmem).symm⟩)
      simp [hrest]
    · have hne : n'.name ≠ n.name := by
        intro heq
        exact hnames.1 (List.mem_map.mpr ⟨n, hn, heq.symm⟩)
      rw [ih hnames.2 hn]
      simp [hne]

/-! ## Edges -/

lemma timesListed_eq {readers : String → List String} (h : ∀ e ∈ es, e.readers = readers e.value) :
    timesListed es x name = (es.map Edge.value).count x * (readers x).count name := by
  induction es with
  | nil => simp [timesListed]
  | cons e es ih =>
    have hrest := ih fun e he => h e (List.mem_cons_of_mem _ he)
    unfold timesListed at hrest ⊢
    rw [List.map_cons, List.count_cons, List.filter_cons]
    by_cases he : e.value = x
    · subst he
      simp only [decide_true, if_true, List.flatMap_cons, List.count_append, hrest,
        h e List.mem_cons_self, BEq.rfl]
      rw [Nat.add_mul, Nat.one_mul, Nat.add_comm]
    · simp [he, hrest]

/-- There is an edge for each input and for each name that is written. -/
lemma Graph.values_edges (hes : g.edges = .ok es) :
    es.map Edge.value = g.sourceNames ∧ ∀ e ∈ es, e.readers = g.readerNames e.value := by
  unfold edges at hes
  simp only [Except.bind_eq_ok, Except.pure_eq_ok] at hes
  obtain ⟨written, hwritten, rfl⟩ := hes
  have hplaces : ∀ e ∈ written.entries, ∃ n, g.nodes[e.2]? = some n := by
    intro e he
    rw [entries_producers hwritten, List.mem_flatMap] at he
    obtain ⟨⟨n, i⟩, hn, he⟩ := he
    obtain ⟨y, -, rfl⟩ := List.mem_map.mp he
    exact ⟨n, List.mem_zipIdx_iff_getElem?.mp hn⟩
  constructor
  · have hkeys : (written.entries.filterMap fun e =>
        g.nodes[e.2]?.map fun n => Edge.mk e.1 n.name (g.readerNames e.1)).map Edge.value =
          written.keys := by
      unfold Table.keys
      generalize written.entries = entries at hplaces
      induction entries with
      | nil => rfl
      | cons e entries ih =>
        obtain ⟨n, hn⟩ := hplaces e List.mem_cons_self
        rw [List.filterMap_cons]
        simp [hn, ih fun e he => hplaces e (List.mem_cons_of_mem _ he)]
    rw [List.map_append, List.map_map]
    apply congrArg₂ (· ++ ·) rfl
    exact hkeys.trans (keys_producers hwritten)
  · intro e he
    rcases List.mem_append.mp he with he | he
    · obtain ⟨v, -, rfl⟩ := List.mem_map.mp he
      rfl
    · obtain ⟨⟨y, i⟩, -, he⟩ := List.mem_filterMap.mp he
      obtain ⟨n, -, rfl⟩ := Option.map_eq_some_iff.mp he
      rfl

/-- A node is listed for a value as often as it reads it, once for every source of the name. -/
lemma Graph.timesListed_eq (hnames : (g.nodes.map Node.name).Nodup) (hes : g.edges = .ok es)
    (hn : n ∈ g.nodes) (hx : x ≠ "") :
    timesListed es x n.name = g.sourceNames.count x * n.reads x := by
  obtain ⟨hvalues, hreaders⟩ := values_edges hes
  rw [TensorGraph.timesListed_eq hreaders, hvalues, count_readerNames hnames hn hx]

lemma Graph.timesListed_eq_reads_iff (hnames : (g.nodes.map Node.name).Nodup)
    (hes : g.edges = .ok es) (hn : n ∈ g.nodes) (hx : x ≠ "") :
    timesListed es x n.name = n.reads x ↔ n.reads x = 0 ∨ g.sourceNames.count x = 1 := by
  rw [timesListed_eq hnames hes hn hx]
  constructor
  · intro h
    rcases Nat.eq_zero_or_pos (n.reads x) with hzero | hpos
    · exact .inl hzero
    · exact .inr (Nat.eq_of_mul_eq_mul_right hpos (h.trans (Nat.one_mul _).symm))
  · rintro (h | h)
    · rw [h, Nat.mul_zero]
    · rw [h, Nat.one_mul]

lemma Node.reads_ne_zero_iff : n.reads x ≠ 0 ↔ ∃ v ∈ n.inputs, v.name = x := by
  unfold Node.reads
  rw [Nat.ne_zero_iff_zero_lt, List.countP_pos_iff]
  simp

lemma Run.nodup_graph_names (run : Run m ps [] s) :
    ((s.graph m.name).nodes.map Node.name).Nodup := by
  have hrun : ((ps.map Passage.final).map Node.name).Nodup := by
    rw [List.map_map]
    exact run.nodup_names
  exact hrun.sublist ((graph_nodes_sublist run.nodes m.name).map Node.name)

lemma Run.nodup_graph_inputs (run : Run m ps [] s) :
    ((s.graph m.name).inputs.map Value.name).Nodup := by
  have hsub : List.Sublist ((s.graph m.name).inputs.map Value.name) s.registry.inputNames :=
    List.filter_sublist.map Value.name
  refine List.Nodup.sublist hsub ?_
  rw [run.inputNames]
  apply List.nodup_range.map
  intro i j hij
  exact Nat.succ.inj (inputName_inj hij)

/-- No name has two sources in a graph where Constants and identities have one output each. -/
lemma Run.nodup_sourceNames (run : Run m ps [] s) (hsingle : m.SingleLiterals) :
    (s.graph m.name).sourceNames.Nodup := by
  unfold Graph.sourceNames
  refine List.nodup_append.mpr ⟨run.nodup_graph_inputs, ?_, ?_⟩
  · exact (run.nodup_writtenNames hsingle).sublist
      ((graph_nodes_sublist run.nodes m.name).flatMap _)
  · rintro x hx y hy rfl
    obtain ⟨u, hu, rfl⟩ := List.mem_map.mp hx
    obtain ⟨n, hn, hmem⟩ := List.mem_flatMap.mp hy
    obtain ⟨i, p, hp, -, rfl⟩ := (mem_graph_nodes run.nodes).mp hn
    obtain ⟨k, hk⟩ := (run.numbered_outputs hsingle (List.mem_of_getElem? hp)).2 u.name hmem
    exact not_outputName_of_mem_inputs run hu _ _ hk

lemma Onnx.ModelMessage.WellFormed.singleLiterals (hm : m.WellFormed) : m.SingleLiterals :=
  fun n hn hop => (hm.single n hn hop).1

lemma Graph.mem_sourceNames : x ∈ g.sourceNames ↔ (∃ u ∈ g.inputs, u.name = x) ∨
    x ≠ "" ∧ ∃ n ∈ g.nodes, ∃ o ∈ n.outputs, o.name = x := by
  simp only [sourceNames, List.mem_append, List.mem_map, writtenNames, List.mem_flatMap, mem_namesOf]
  refine or_congr_right ⟨?_, ?_⟩
  · rintro ⟨n, hn, hx, ho⟩
    exact ⟨hx, n, hn, ho⟩
  · rintro ⟨hx, n, hn, ho⟩
    exact ⟨n, hn, hx, ho⟩

/-- In the graph of a well-formed model, what a node reads has a source unless a literal has been
lifted into an operand of that name. -/
lemma Run.mem_sourceNames_iff (hm : m.WellFormed) (hin : m.InputsNamed) (hgen : m.NoGenerated)
    (run : Run m ps [] s) {v : Value} (hn : n ∈ (s.graph m.name).nodes) (hv : v ∈ n.inputs)
    (hne : v.name ≠ "") : v.name ∈ (s.graph m.name).sourceNames ↔
      ∀ n' ∈ (s.graph m.name).nodes, ∀ w ∈ n'.inputs, w.name = v.name → w.literal = none := by
  rw [Graph.mem_sourceNames]
  constructor
  · intro hsource n' hn' w hw hname
    by_contra hliteral
    obtain ⟨hinputs, houtputs⟩ := not_source_of_literal hm hin hgen run hn' hw (hname ▸ hne)
      (Option.isSome_iff_ne_none.mpr hliteral)
    rcases hsource with ⟨u, hu, hu'⟩ | ⟨-, n₂, hn₂, o, ho, ho'⟩
    · exact hinputs u hu (hu'.trans hname.symm)
    · exact houtputs n₂ hn₂ o ho (ho'.trans hname.symm)
  · intro hbare
    obtain ⟨i, hi⟩ := List.getElem?_of_mem hn
    rcases supplies_or_lifted hm hin hgen run hi hv hne with hsupplies | ⟨n', hn', w, hw, hlit, hname⟩
    · rcases hsupplies with hu | ⟨n', hn', ho⟩
      · exact .inl hu
      · exact .inr ⟨hne, n', List.mem_of_mem_take hn', ho⟩
    · simp [hbare n' hn' w hw hname] at hlit

/-- The edges of an imported graph can be listed if and only if no name is written twice. They list
what a node reads under a name if and only if the name has one source. For a well-formed model they
list everything that is read if and only if literals stand in operands without a name only. -/
theorem importGraph_listsReads_iff {checkFirst : Bool} (h : m.importGraph checkFirst = .ok g) :
    ((∃ es, g.edges = .ok es) ↔ (writtenNames g.nodes).Nodup) ∧
    (∀ es, g.edges = .ok es → ∀ n ∈ g.nodes, ∀ x, x ≠ "" →
      (timesListed es x n.name = n.reads x ↔ n.reads x = 0 ∨ g.sourceNames.count x = 1)) ∧
    (m.WellFormed → m.InputsNamed → m.NoGenerated →
      (g.ListsReads ↔ ∀ n ∈ g.nodes, ∀ v ∈ n.inputs, v.literal.isSome → v.name = "")) := by
  obtain ⟨ps, s, run, rfl⟩ := importGraph_ok h
  have hnames := run.nodup_graph_names
  refine ⟨⟨?_, Graph.exists_edges⟩, fun es hes n hn x hx =>
    Graph.timesListed_eq_reads_iff hnames hes hn hx, fun hm hin hgen => ?_⟩
  · rintro ⟨es, hes⟩
    unfold Graph.edges at hes
    obtain ⟨t, ht, -⟩ := Except.bind_eq_ok.mp hes
    exact producers_eq_ok_iff.mp ⟨t, ht⟩
  have hsources := run.nodup_sourceNames hm.singleLiterals
  obtain ⟨es, hes⟩ := Graph.exists_edges (List.nodup_append.mp hsources).2.1
  constructor
  · rintro ⟨es', hes', hlists⟩ n hn v hv hliteral
    by_contra hne
    have hread : n.reads v.name ≠ 0 := Node.reads_ne_zero_iff.mpr ⟨v, hv, rfl⟩
    have hone := ((Graph.timesListed_eq_reads_iff hnames hes' hn hne).mp
      (hlists n hn v.name hne)).resolve_left hread
    have hsource : v.name ∈ (s.graph m.name).sourceNames := List.count_pos_iff.mp (by omega)
    have hbare := (run.mem_sourceNames_iff hm hin hgen hn hv hne).mp hsource n hn v hv rfl
    simp [hbare] at hliteral
  · intro hunnamed
    refine ⟨es, hes, fun n hn x hx => ?_⟩
    rw [Graph.timesListed_eq_reads_iff hnames hes hn hx, or_iff_not_imp_left]
    intro hread
    obtain ⟨v, hv, rfl⟩ := Node.reads_ne_zero_iff.mp hread
    apply List.count_eq_one_of_mem hsources
    apply (run.mem_sourceNames_iff hm hin hgen hn hv hx).mpr
    intro n' hn' w hw hname
    by_contra hliteral
    exact hx (hname ▸ hunnamed n' hn' w hw (Option.isSome_iff_ne_none.mpr hliteral))

theorem importGraph_listsReads_iff_sharedConstant :
    ∃ g, sharedConstant.importGraph false = .ok g ∧ (writtenNames g.nodes).Nodup ∧
      (g.ListsReads ↔ ∀ n ∈ g.nodes, ∀ v ∈ n.inputs, v.literal.isSome → v.name = "") := by
  obtain ⟨g, hg, hnodup⟩ : ∃ g, sharedConstant.importGraph false = .ok g ∧
      (writtenNames g.nodes).Nodup := Except.exists_ok (by decide +kernel)
  obtain ⟨-, -, hlists⟩ := importGraph_listsReads_iff hg
  exact ⟨g, hg, hnodup, hlists (by decide) (by decide) (by decide)⟩

/-- What the Constant wrote is read by the Reshape and by the Neg, and listed for neither. -/
theorem sharedConstant_unlisted :
    ∃ g es, sharedConstant.importGraph false = .ok g ∧ g.edges = .ok es ∧ ¬ g.ListsReads ∧
      g.nodes.map (fun n => (n.name, n.reads "constant1_out1")) = [("reshape1", 1), ("neg1", 1)] ∧
        ∀ n ∈ g.nodes, timesListed es "constant1_out1" n.name = 0 := by
  obtain ⟨g, hg, hreads, hedges⟩ : ∃ g, sharedConstant.importGraph false = .ok g ∧
      g.nodes.map (fun n => (n.name, n.reads "constant1_out1")) = [("reshape1", 1), ("neg1", 1)] ∧
        g.edges.toOption.any fun es => ∀ n ∈ g.nodes, timesListed es "constant1_out1" n.name = 0 :=
    Except.exists_ok (by decide +kernel)
  obtain ⟨es, hes, hunlisted⟩ : ∃ es, g.edges = .ok es ∧
      ∀ n ∈ g.nodes, timesListed es "constant1_out1" n.name = 0 :=
    Except.exists_ok (by simpa using hedges)
  refine ⟨g, es, hg, hes, ?_, hreads, hunlisted⟩
  rintro ⟨es', hes', hlists⟩
  obtain rfl := Except.ok.inj (hes.symm.trans hes')
  obtain ⟨n, hn, hone⟩ : ∃ n ∈ g.nodes, (n.name, n.reads "constant1_out1") = ("neg1", 1) :=
    List.mem_map.mp (hreads ▸ by simp)
  have hread := hlists n hn "constant1_out1" (by decide)
  rw [hunlisted n hn, (Prod.mk.inj hone).2] at hread
  omega

end TensorGraph
