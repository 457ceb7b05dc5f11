import TensorGraph.Import
import TensorGraph.Proofs.Checked

/-!
# What the check of the order finds

The check of the order of nodes fails exactly if a node reads a name that a later node writes
(`checkOrder_eq_ok_iff`), and its error names such a value with its writer and its reader
(`checkOrder_eq_error`).
-/

namespace TensorGraph

open Onnx

variable {t : Table String (List Nat)} {nodes : List Node} {vs : List Value} {x : String}
  {i j k : Nat} {e : Error}

/-- Notes that the node at position `i` reads the values `vs`, those that have a name. -/
def noteReads (i : Nat) (t : Table String (List Nat)) (vs : List Value) :
    Table String (List Nat) :=
  vs.foldl (fun t v =>
    if v.name = "" then t else t.insert v.name ((t.get? v.name).getD [] ++ [i])) t

/-- Notes what a node reads, which stands with its position. -/
def noteReadsOf (t : Table String (List Nat)) (p : Node × Nat) : Table String (List Nat) :=
  noteReads p.2 t p.1.inputs

lemma readers_eq : readers nodes = nodes.zipIdx.foldl noteReadsOf ∅ := rfl

lemma noteReads_cons {v : Value} : noteReads i t (v :: vs) =
    noteReads i (if v.name = "" then t else
      t.insert v.name ((t.get? v.name).getD [] ++ [i])) vs := rfl

lemma mem_noteReads : k ∈ ((noteReads i t vs).get? x).getD [] ↔
    k ∈ (t.get? x).getD [] ∨ k = i ∧ x ≠ "" ∧ ∃ v ∈ vs, v.name = x := by
  induction vs generalizing t with
  | nil => simp [noteReads]
  | cons v vs ih =>
    rw [noteReads_cons, ih]
    by_cases hv : v.name = ""
    · simp only [hv, if_true, List.mem_cons, exists_eq_or_imp]
      exact or_congr_right (and_congr_right fun _ => and_congr_right fun hx =>
        (or_iff_right fun e => hx e.symm).symm)
    · simp only [hv, if_false, Table.get?_insert, List.mem_cons, exists_eq_or_imp]
      by_cases hx : x = v.name
      · subst hx
        simp only [if_true, Option.getD_some, List.mem_append, List.mem_singleton, ne_eq, hv,
          not_false_eq_true, true_and, true_or, and_true]
        tauto
      · simp only [hx, if_false, show ¬ v.name = x from fun e => hx e.symm, false_or]

lemma mem_foldl_noteReadsOf {ps : List (Node × Nat)} :
    k ∈ ((ps.foldl noteReadsOf t).get? x).getD [] ↔ k ∈ (t.get? x).getD [] ∨
      ∃ p ∈ ps, k = p.2 ∧ x ≠ "" ∧ ∃ v ∈ p.1.inputs, v.name = x := by
  induction ps generalizing t with
  | nil => simp
  | cons p ps ih =>
    rw [List.foldl_cons, ih, noteReadsOf, mem_noteReads, or_assoc]
    simp only [List.mem_cons, exists_eq_or_imp]

/-- The readers of a name are the nodes that have an operand of that name. -/
theorem mem_readers : k ∈ ((readers nodes).get? x).getD [] ↔
    x ≠ "" ∧ ∃ n, nodes[k]? = some n ∧ ∃ v ∈ n.inputs, v.name = x := by
  rw [readers_eq, mem_foldl_noteReadsOf]
  simp only [Table.get?_empty, Option.getD_none, List.not_mem_nil, false_or]
  constructor
  · rintro ⟨⟨n, i⟩, hp, rfl, hx, hv⟩
    exact ⟨hx, n, List.mem_zipIdx_iff_getElem?.mp hp, hv⟩
  · rintro ⟨hx, n, hn, hv⟩
    exact ⟨(n, k), List.mem_zipIdx_iff_getElem?.mpr hn, rfl, hx, hv⟩

/-- The node at position `i` reads the name `x`, and the later one at position `j` writes it. -/
structure ReadAhead (nodes : List Node) (x : String) (i j : Nat) : Prop where
  named : x ≠ ""
  lt : i < j
  reads : ∃ n, nodes[i]? = some n ∧ ∃ v ∈ n.inputs, v.name = x
  writes : ∃ n, nodes[j]? = some n ∧ ∃ v ∈ n.outputs, v.name = x

lemma checkReaders_eq_ok (h : checkReaders t j vs = .ok ()) {v : Value} (hv : v ∈ vs)
    (hne : v.name ≠ "") (hi : i ∈ (t.get? v.name).getD []) : j ≤ i := by
  have := Except.forM_eq_ok h v hv
  simp only [hne, if_false] at this
  split at this
  · simp at this
  · next hnone =>
    by_contra hlt
    cases ht : t.get? v.name with
    | none => simp [ht] at hi
    | some is =>
      rw [ht, Option.getD_some] at hi
      rw [ht, Option.bind_some, List.find?_eq_none] at hnone
      exact hnone i hi (by simpa using hlt)

/-- The reader in the error of a check is the first that is noted before the writer. -/
lemma checkReaders_eq_error (h : checkReaders t j vs = .error e) :
    ∃ v ∈ vs, v.name ≠ "" ∧ ∃ i, ((t.get? v.name).getD []).find? (· < j) = some i ∧
      e = .structural (.outOfOrder v.name j i) := by
  obtain ⟨v, hv, h⟩ := Except.forM_eq_error h
  split at h
  · simp at h
  · next hne =>
    split at h
    · next i hi =>
      obtain ⟨is, his, hfind⟩ := Option.bind_eq_some_iff.mp hi
      refine ⟨v, hv, hne, i, ?_, (Except.error.inj h).symm⟩
      rw [his]
      exact hfind
    · simp at h

theorem checkOrder_eq_error_find (h : checkOrder nodes = .error e) :
    ∃ x j i, x ≠ "" ∧ (∃ n, nodes[j]? = some n ∧ ∃ v ∈ n.outputs, v.name = x) ∧
      (((readers nodes).get? x).getD []).find? (· < j) = some i ∧
        e = .structural (.outOfOrder x j i) := by
  obtain ⟨⟨n, j⟩, hn, h⟩ := Except.forM_eq_error h
  obtain ⟨v, hv, hne, i, hfind, he⟩ := checkReaders_eq_error h
  exact ⟨v.name, j, i, hne, ⟨n, List.mem_zipIdx_iff_getElem?.mp hn, v, hv, rfl⟩, hfind, he⟩

theorem checkOrder_eq_error (h : checkOrder nodes = .error e) :
    ∃ x i j, ReadAhead nodes x i j ∧ e = .structural (.outOfOrder x j i) := by
  obtain ⟨x, j, i, hne, hwrites, hfind, he⟩ := checkOrder_eq_error_find h
  obtain ⟨-, hreads⟩ := mem_readers.mp (List.mem_of_find?_eq_some hfind)
  exact ⟨x, i, j, ⟨hne, by simpa using List.find?_some hfind, hreads, hwrites⟩, he⟩

/-- The check succeeds exactly if no node reads what a later one writes. -/
theorem checkOrder_eq_ok_iff : checkOrder nodes = .ok () ↔ ∀ x i j, ¬ ReadAhead nodes x i j := by
  constructor
  · intro h x i j hahead
    obtain ⟨n, hn, v, hv, rfl⟩ := hahead.writes
    have hcheck := Except.forM_eq_ok h (n, j) (List.mem_zipIdx_iff_getElem?.mpr hn)
    have hread := mem_readers.mpr ⟨hahead.named, hahead.reads⟩
    exact Nat.not_le_of_lt hahead.lt (checkReaders_eq_ok hcheck hv hahead.named hread)
  · intro h
    cases hc : checkOrder nodes with
    | ok => rfl
    | error e =>
      obtain ⟨x, i, j, hahead, -⟩ := checkOrder_eq_error hc
      exact absurd hahead (h x i j)

namespace Onnx

variable {raw : NodeMessage} {n : Node} {m : ModelMessage}

lemma NodeMessage.toBareNode_ok (h : raw.toBareNode = .ok n) :
    n.inputs = raw.inputs.map bareValue ∧ n.outputs = raw.outputs.map bareValue := by
  simp only [NodeMessage.toBareNode, Except.bind_eq_ok, Except.pure_eq_ok] at h
  obtain ⟨_, -, rfl⟩ := h
  exact ⟨rfl, rfl⟩

/-- The message at position `i` reads the name `x` as its operand `k`, and the later message at
position `j` writes it. -/
structure ModelMessage.ReadsAhead (m : ModelMessage) (i k j : Nat) (x : String) : Prop where
  named : x ≠ ""
  lt : i < j
  reads : ∃ raw, m.nodes[i]? = some raw ∧ raw.inputs[k]? = some x
  writes : ∃ raw, m.nodes[j]? = some raw ∧ x ∈ raw.outputs

namespace ModelMessage

lemma readAhead_iff (h : m.nodes.mapM NodeMessage.toBareNode = .ok nodes) :
    ReadAhead nodes x i j ↔ ∃ k, m.ReadsAhead i k j x := by
  have hbare := Except.mapM_eq_ok h
  constructor
  · intro hahead
    obtain ⟨n, hn, v, hv, rfl⟩ := hahead.reads
    obtain ⟨raw, hraw, hconv⟩ := forall₂_getElem? hbare hn
    rw [(NodeMessage.toBareNode_ok hconv).1] at hv
    obtain ⟨y, hy, rfl⟩ := List.mem_map.mp hv
    obtain ⟨k, hk⟩ := List.getElem?_of_mem hy
    obtain ⟨n', hn', v', hv', hname⟩ := hahead.writes
    obtain ⟨raw', hraw', hconv'⟩ := forall₂_getElem? hbare hn'
    rw [(NodeMessage.toBareNode_ok hconv').2] at hv'
    obtain ⟨y', hy', rfl⟩ := List.mem_map.mp hv'
    exact ⟨k, hahead.named, hahead.lt, ⟨raw, hraw, hk⟩, raw', hraw', hname ▸ hy'⟩
  · rintro ⟨k, hahead⟩
    obtain ⟨raw, hraw, hk⟩ := hahead.reads
    obtain ⟨n, hn, hconv⟩ := forall₂_getElem? hbare.flip hraw
    obtain ⟨raw', hraw', hx⟩ := hahead.writes
    obtain ⟨n', hn', hconv'⟩ := forall₂_getElem? hbare.flip hraw'
    refine ⟨hahead.named, hahead.lt, ⟨n, hn, bareValue x, ?_, rfl⟩, n', hn', bareValue x, ?_, rfl⟩
    · rw [(NodeMessage.toBareNode_ok hconv).1]
      exact List.mem_map_of_mem (List.mem_of_getElem? hk)
    · rw [(NodeMessage.toBareNode_ok hconv').2]
      exact List.mem_map_of_mem hx

/-- Where all attributes can be read, the check of the order is one of the names alone. -/
lemma exists_bareNodes (hattr : ∀ raw ∈ m.nodes, ∃ a, raw.toAttributes = .ok a) :
    ∃ nodes, m.nodes.mapM NodeMessage.toBareNode = .ok nodes ∧
      m.checkOrder = TensorGraph.checkOrder nodes := by
  obtain ⟨nodes, hnodes⟩ := Except.exists_mapM_eq_ok (f := NodeMessage.toBareNode) fun raw hraw => by
    obtain ⟨a, ha⟩ := hattr raw hraw
    exact ⟨_, by rw [NodeMessage.toBareNode, ha]; rfl⟩
  refine ⟨nodes, hnodes, ?_⟩
  rw [checkOrder, hnodes]
  rfl

/-- Where the check of the order fails, a message reads ahead of its writer. -/
theorem checkOrder_eq_error (hattr : ∀ raw ∈ m.nodes, ∃ a, raw.toAttributes = .ok a)
    (h : m.checkOrder = .error e) :
    ∃ i k j x, m.ReadsAhead i k j x ∧ e = .structural (.outOfOrder x j i) := by
  obtain ⟨nodes, hnodes, hcheck⟩ := exists_bareNodes hattr
  obtain ⟨x, i, j, hahead, he⟩ := TensorGraph.checkOrder_eq_error (hcheck ▸ h)
  obtain ⟨k, hahead⟩ := (readAhead_iff hnodes).mp hahead
  exact ⟨i, k, j, x, hahead, he⟩

theorem checkOrder_eq_ok (hattr : ∀ raw ∈ m.nodes, ∃ a, raw.toAttributes = .ok a)
    (h : ∀ i k j x, ¬ m.ReadsAhead i k j x) : m.checkOrder = .ok () := by
  cases hc : m.checkOrder with
  | ok => rfl
  | error e =>
    obtain ⟨i, k, j, x, hahead, -⟩ := checkOrder_eq_error hattr hc
    exact absurd hahead (h i k j x)

/-- Where a message reads ahead of its writer, the check of the order fails. -/
theorem exists_checkOrder_eq_error (hattr : ∀ raw ∈ m.nodes, ∃ a, raw.toAttributes = .ok a)
    (h : m.ReadsAhead i k j x) :
    ∃ y j i, m.checkOrder = .error (.structural (.outOfOrder y j i)) := by
  cases hc : m.checkOrder with
  | error e =>
    obtain ⟨i, -, j, y, -, rfl⟩ := checkOrder_eq_error hattr hc
    exact ⟨y, j, i, rfl⟩
  | ok =>
    obtain ⟨nodes, hnodes, hcheck⟩ := exists_bareNodes hattr
    exact absurd ((readAhead_iff hnodes).mpr ⟨k, h⟩) (checkOrder_eq_ok_iff.mp (hcheck ▸ hc) x i j)

end ModelMessage

end Onnx

end TensorGraph
