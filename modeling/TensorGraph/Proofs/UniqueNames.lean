import Mathlib.Data.List.Flatten
import TensorGraph.Proofs.Accounting

/-!
# Names in a finished graph

Whatever the names of the file, no two nodes of a graph are called the same, and no two outputs that
have a name (`importGraph_nodup_names`). Hence the graph has a table of producers
(`producers_eq_ok_iff`) and a list of edges.
-/

namespace TensorGraph

open Onnx ModelMessage

variable {m : ModelMessage} {r r' : Registry} {s s' : ImportState} {p : Passage} {ps : List Passage}
  {rest : List NodeMessage} {nodes : List Node} {n : Node} {vs ws : List Value} {g : Graph}
  {t t' : Table String Nat} {i : Nat}

/-- The names of what the nodes write, in the order of writing. -/
def writtenNames (nodes : List Node) : List String := nodes.flatMap fun n => namesOf n.outputs

/-- Notes that the node at position `i` writes the values `vs`, those that have a name. -/
def noteWrites (i : Nat) (t : Table String Nat) (vs : List Value) :
    Except Error (Table String Nat) :=
  vs.foldlM (fun (t : Table String Nat) v =>
    if v.name = "" then .ok t
    else match t.get? v.name with
      | some first => .error (.structural (.producedTwice v.name i first))
      | none => .ok (t.insert v.name i)) t

lemma producers_eq : producers nodes =
    nodes.zipIdx.foldlM (fun t p => noteWrites p.2 t p.1.outputs) ∅ := rfl

lemma noteWrites_cons_of_empty {v : Value} (hv : v.name = "") :
    noteWrites i t (v :: vs) = noteWrites i t vs := by
  simp [noteWrites, hv, bind, Except.bind]

lemma noteWrites_cons_of_new {v : Value} (hv : v.name ≠ "") (hnew : t.get? v.name = none) :
    noteWrites i t (v :: vs) = noteWrites i (t.insert v.name i) vs := by
  simp [noteWrites, hv, hnew, bind, Except.bind]

lemma Table.get?_eq_none_iff {x : String} : t.get? x = none ↔ x ∉ t.keys := by
  simp only [Table.get?, Table.keys, Option.map_eq_none_iff, List.find?_eq_none, List.mem_map]
  constructor
  · rintro h ⟨e, he, rfl⟩
    simpa using h e he
  · intro h e he hx
    exact h ⟨e, he, by simpa using hx⟩

lemma Table.entries_insert_of_new {x : String} (hnew : t.get? x = none) :
    (t.insert x i).entries = t.entries ++ [(x, i)] := by
  have hkeys : x ∉ t.entries.map Prod.fst := Table.get?_eq_none_iff.mp hnew
  simp only [Table.insert]
  generalize t.entries = es at hkeys ⊢
  induction es with
  | nil => rfl
  | cons e es ih =>
    rw [List.map_cons, List.mem_cons, not_or] at hkeys
    rw [Table.bindEntry, if_neg (Ne.symm hkeys.1), ih hkeys.2, List.cons_append]

lemma entries_noteWrites (h : noteWrites i t vs = .ok t') :
    t'.entries = t.entries ++ (namesOf vs).map (·, i) := by
  induction vs generalizing t with
  | nil =>
    obtain rfl : t = t' := by simpa [noteWrites, pure, Except.pure] using h
    simp [namesOf]
  | cons v vs ih =>
    by_cases hv : v.name = ""
    · rw [noteWrites_cons_of_empty hv] at h
      rw [ih h, namesOf_cons_of_empty hv]
    · cases hnew : t.get? v.name with
      | some first => simp [noteWrites, hv, hnew, bind, Except.bind] at h
      | none =>
        rw [noteWrites_cons_of_new hv hnew] at h
        rw [ih h, namesOf_cons_of_ne hv, Table.entries_insert_of_new hnew, List.append_assoc]
        rfl

lemma keys_noteWrites (h : noteWrites i t vs = .ok t') : t'.keys = t.keys ++ namesOf vs := by
  unfold Table.keys
  rw [entries_noteWrites h, List.map_append, List.map_map]
  exact congrArg _ (List.map_id _)

lemma exists_noteWrites (i : Nat) (h : (t.keys ++ namesOf vs).Nodup) :
    ∃ t', noteWrites i t vs = .ok t' := by
  induction vs generalizing t with
  | nil => exact ⟨t, rfl⟩
  | cons v vs ih =>
    by_cases hv : v.name = ""
    · rw [namesOf_cons_of_empty hv] at h
      rw [noteWrites_cons_of_empty hv]
      exact ih h
    · rw [namesOf_cons_of_ne hv] at h
      have hnew : v.name ∉ t.keys := by
        intro hmem
        exact (List.nodup_append.mp h).2.2 _ hmem _ (by simp) rfl
      rw [noteWrites_cons_of_new hv (Table.get?_eq_none_iff.mpr hnew)]
      apply ih
      rw [Table.keys_insert, if_neg hnew, List.append_assoc]
      exact h

lemma entries_foldlM_noteWrites {es : List (Node × Nat)}
    (h : es.foldlM (fun t p => noteWrites p.2 t p.1.outputs) t = .ok t') :
    t'.entries = t.entries ++ es.flatMap fun p => (namesOf p.1.outputs).map (·, p.2) := by
  induction es generalizing t with
  | nil =>
    obtain rfl : t = t' := by simpa [pure, Except.pure] using h
    simp
  | cons e es ih =>
    rw [List.foldlM_cons, Except.bind_eq_ok] at h
    obtain ⟨t₁, h₁, h⟩ := h
    rw [ih h, entries_noteWrites h₁, List.append_assoc]
    rfl

lemma exists_foldlM_noteWrites {es : List (Node × Nat)}
    (h : (t.keys ++ writtenNames (es.map Prod.fst)).Nodup) :
    ∃ t', es.foldlM (fun t p => noteWrites p.2 t p.1.outputs) t = .ok t' := by
  induction es generalizing t with
  | nil => exact ⟨t, rfl⟩
  | cons e es ih =>
    have hsplit : t.keys ++ writtenNames ((e :: es).map Prod.fst) =
        (t.keys ++ namesOf e.1.outputs) ++ writtenNames (es.map Prod.fst) := by
      rw [List.append_assoc]
      rfl
    rw [hsplit] at h
    obtain ⟨t₁, h₁⟩ := exists_noteWrites e.2 (List.nodup_append.mp h).1
    rw [← keys_noteWrites h₁] at h
    obtain ⟨t', h'⟩ := ih h
    refine ⟨t', ?_⟩
    rw [List.foldlM_cons, h₁]
    exact h'

/-- Every name that is written has the node that writes it as its producer. -/
lemma entries_producers (h : producers nodes = .ok t) :
    t.entries = nodes.zipIdx.flatMap fun p => (namesOf p.1.outputs).map (·, p.2) := by
  rw [producers_eq] at h
  exact entries_foldlM_noteWrites h

/-- The names with a producer are those that are written. -/
lemma keys_producers (h : producers nodes = .ok t) : t.keys = writtenNames nodes := by
  unfold Table.keys writtenNames
  rw [entries_producers h, List.map_flatMap]
  conv_rhs => rw [← List.zipIdx_map_fst 0 nodes, List.flatMap_map]
  simp only [List.map_map, Function.comp_def, List.map_id']

/-- There is a table of producers exactly if no name is written twice. -/
theorem producers_eq_ok_iff : (∃ t, producers nodes = .ok t) ↔ (writtenNames nodes).Nodup := by
  constructor
  · rintro ⟨t, h⟩
    rw [← keys_producers h]
    exact t.nodup
  · intro h
    apply exists_foldlM_noteWrites
    rwa [List.zipIdx_map_fst]

lemma Graph.exists_edges (h : (writtenNames g.nodes).Nodup) : ∃ es, g.edges = .ok es := by
  obtain ⟨t, ht⟩ := producers_eq_ok_iff.mpr h
  unfold Graph.edges
  rw [ht]
  exact ⟨_, rfl⟩

/-- The new names of a node's outputs tell the node and the places of the outputs. -/
lemma namesOf_renamedOutputs (n : Node) (number : Nat) (vs : List Value) :
    namesOf (renamedOutputs n number vs) =
      ((vs.zipIdx number).filter (·.1.name ≠ "")).map fun e => ImportState.outputName n e.2 := by
  induction vs generalizing number with
  | nil => rfl
  | cons v vs ih =>
    have hcons : renamedOutputs n number (v :: vs) =
        (if v.name = "" then v else { v with name := ImportState.outputName n number }) ::
          renamedOutputs n (number + 1) vs := rfl
    rw [hcons, List.zipIdx_cons]
    by_cases hv : v.name = ""
    · rw [if_pos hv, namesOf_cons_of_empty hv, ih, List.filter_cons_of_neg (by simpa using hv)]
    · rw [if_neg hv, namesOf_cons_of_ne (outputName_ne_empty n number), ih,
        List.filter_cons_of_pos (by simpa using hv)]
      rfl

lemma nodup_namesOf_renamedOutputs (n : Node) (number : Nat) (vs : List Value) :
    (namesOf (renamedOutputs n number vs)).Nodup := by
  have hplaces : ((vs.zipIdx number).map Prod.snd).Nodup := by
    rw [List.zipIdx_map_snd]
    exact List.nodup_range'
  have hkept := hplaces.sublist (List.filter_sublist.map Prod.snd : List.Sublist
    (((vs.zipIdx number).filter (·.1.name ≠ "")).map Prod.snd) _)
  have hnames := hkept.map (f := ImportState.outputName n) fun a b hab =>
    (TensorGraph.outputName_inj hab).2
  rw [namesOf_renamedOutputs]
  rwa [List.map_map] at hnames

lemma mem_namesOf_renamedOutputs {number : Nat} {x : String}
    (hx : x ∈ namesOf (renamedOutputs n number vs)) : ∃ k, x = ImportState.outputName n k := by
  rw [namesOf_renamedOutputs] at hx
  obtain ⟨e, -, rfl⟩ := List.mem_map.mp hx
  exact ⟨e.2, rfl⟩

/-! ## Runs -/

/-- Every Constant and every Identity has one output. -/
def Onnx.ModelMessage.SingleLiterals (m : ModelMessage) : Prop :=
  ∀ raw ∈ m.nodes, raw.operator = "Constant" ∨ raw.operator = "Identity" → raw.outputs.length = 1

instance : DecidablePred SingleLiterals := fun _ => by
  unfold SingleLiterals
  infer_instance

/-- A Constant or an identity keeps the outputs that its message has. -/
lemma Step.Body.length_outputs_of_transparent (h : Step.Body s p)
    (ht : ImportState.isTransparent p.typed.operator = true) :
    p.typed.outputs.length = p.message.outputs.length := by
  obtain ⟨hconsumed, -, -⟩ := h.transparent ht
  obtain ⟨outputs, hretyped, hinfer⟩ := infer_ok h.infer
  rw [h.reshaped_of_transparent ht, h.outputs_lifted, Passage.outputNames, hconsumed,
    if_neg Bool.false_ne_true] at hretyped
  have hlength := hretyped.length_eq
  rw [List.length_map] at hlength
  rw [hinfer, hlength]

lemma Step.Body.message_of_transparent (h : Step.Body s p)
    (ht : ImportState.isTransparent p.typed.operator = true) :
    p.message.operator = "Constant" ∨ p.message.operator = "Identity" := by
  obtain ⟨-, -, hmessage⟩ := h.transparent ht
  rw [hmessage]
  revert ht
  cases p.typed.operator <;> simp [ImportState.isTransparent, Operator.name]

/-- The outputs of a node that have a name are called after the node and their places. -/
lemma Step.numbered_outputs (h : Step s p s') (hsingle : m.SingleLiterals)
    (hmem : p.message ∈ m.nodes) :
    (namesOf p.outputs).Nodup ∧
      ∀ x ∈ namesOf p.outputs, ∃ k, x = ImportState.outputName p.typed k := by
  have hrename := h.renameOutputs
  split at hrename
  · next ht =>
    have hlength := h.length_outputs_of_transparent ht
    rw [hsingle p.message hmem (h.message_of_transparent ht)] at hlength
    obtain ⟨v, hv⟩ := List.length_eq_one_iff.mp hlength
    obtain ⟨w, ws, hw, -, hout⟩ := renameLiteral_eq_ok.mp hrename
    obtain ⟨rfl, rfl⟩ := List.cons.inj (hv.symm.trans hw)
    have hnames : namesOf p.outputs = [ImportState.outputName p.typed 1] := by
      rw [hout, namesOf_cons_of_ne (outputName_ne_empty p.typed 1)]
      rfl
    rw [hnames]
    exact ⟨by simp, fun x hx => ⟨1, by simpa using hx⟩⟩
  · rw [eq_renamedOutputs hrename]
    exact ⟨nodup_namesOf_renamedOutputs _ _ _, fun x => mem_namesOf_renamedOutputs⟩

lemma Run.numbered_outputs (run : Run m ps rest s) (hsingle : m.SingleLiterals) (hp : p ∈ ps) :
    (namesOf p.outputs).Nodup ∧
      ∀ x ∈ namesOf p.outputs, ∃ k, x = ImportState.outputName p.typed k := by
  obtain ⟨before, after, hps⟩ := List.append_of_mem hp
  obtain ⟨rest₁, s₁, s₂, run₁, -, step, -⟩ := run.split hps
  apply step.numbered_outputs hsingle
  rw [← run₁.messages]
  simp

/-- No two outputs of a run have the same name. -/
theorem Run.nodup_writtenNames (run : Run m ps rest s) (hsingle : m.SingleLiterals) :
    (writtenNames (ps.map Passage.final)).Nodup := by
  have hnames : ps.Pairwise fun p q => p.typed.name ≠ q.typed.name :=
    List.pairwise_map.mp run.nodup_names
  rw [writtenNames, List.flatMap_map, List.nodup_flatMap]
  constructor
  · intro p hp
    exact (run.numbered_outputs hsingle hp).1
  · refine List.Pairwise.imp_of_mem ?_ hnames
    intro p q hp hq hne x hx hx'
    obtain ⟨k, hk⟩ := (run.numbered_outputs hsingle hp).2 x hx
    obtain ⟨l, hl⟩ := (run.numbered_outputs hsingle hq).2 x hx'
    exact hne (TensorGraph.outputName_inj (hk.symm.trans hl)).1

/-- No two nodes of a graph have the same name, and no two outputs that have a name have the same
one. The producers and the edges of the graph can be listed. -/
theorem importGraph_nodup_names {checkFirst : Bool} (hsingle : m.SingleLiterals)
    (h : m.importGraph checkFirst = .ok g) :
    (g.nodes.map Node.name).Nodup ∧ (writtenNames g.nodes).Nodup ∧
      (∃ t, producers g.nodes = .ok t) ∧ ∃ es, g.edges = .ok es := by
  simp only [importGraph, Except.bind_eq_ok, Except.pure_eq_ok] at h
  obtain ⟨s, hs, rfl⟩ := h
  obtain ⟨ps, run⟩ := importState_eq_ok.mp (importState_of_check hs)
  have hsub := graph_nodes_sublist run.nodes m.name
  have hnames : ((s.graph m.name).nodes.map Node.name).Nodup := by
    have hrun : ((ps.map Passage.final).map Node.name).Nodup := by
      rw [List.map_map]
      exact run.nodup_names
    exact hrun.sublist (hsub.map Node.name)
  have hwritten : (writtenNames (s.graph m.name).nodes).Nodup :=
    (run.nodup_writtenNames hsingle).sublist (hsub.flatMap _)
  exact ⟨hnames, hwritten, producers_eq_ok_iff.mpr hwritten, Graph.exists_edges hwritten⟩

/-- The file calls its values as the graph calls others. -/
def crossedNames : ModelMessage where
  inputs := [{ name := "neg1_out1", elementType := 1, dims := [.size 2] }]
  outputs := [{ name := "input1", elementType := 1, dims := [.size 2] }]
  nodes := [
    { operator := "Relu", inputs := ["neg1_out1"], outputs := ["relu2_out1"] },
    { operator := "Relu", inputs := ["relu2_out1"], outputs := ["relu1_out1"] },
    { operator := "Neg", inputs := ["relu1_out1"], outputs := ["input1"] }]

theorem importGraph_nodup_names_crossed :
    ∃ g, crossedNames.importGraph false = .ok g ∧
      writtenNames g.nodes = ["relu1_out1", "relu2_out1", "neg1_out1"] ∧
      (g.nodes.map Node.name).Nodup ∧ (writtenNames g.nodes).Nodup ∧
      (∃ t, producers g.nodes = .ok t) ∧ ∃ es, g.edges = .ok es := by
  have himport : ∃ g, crossedNames.importGraph false = .ok g ∧
      writtenNames g.nodes = ["relu1_out1", "relu2_out1", "neg1_out1"] :=
    Except.exists_ok (by decide +kernel)
  obtain ⟨g, hg, hnames⟩ := himport
  exact ⟨g, hg, hnames, importGraph_nodup_names (by decide) hg⟩

end TensorGraph
