import TensorGraph.Proofs.Import.Trace
import TensorGraph.Proofs.Naming

/-!
# The numbers of the nodes of a run

A node is named by its operator and its number among the nodes of that operator, so that no two nodes
of a run have the same name (`Run.nodup_names`).
-/

namespace TensorGraph

open Onnx

variable {m : ModelMessage} {s s' : ImportState} {p q : Passage} {ps : List Passage}
  {rest : List NodeMessage} {r : Registry} {n n' : Node} {i j k l : Nat}

/-- How many nodes of an operator have been named. -/
def ImportState.count (s : ImportState) (o : Operator) : Nat := (s.counts.get? o).getD 0

lemma Node.Reshapes.name (h : n.Reshapes r n') : n'.name = n.name := by
  cases h with
  | same node => rw [node]
  | reshape _ _ _ _ _ _ node => rw [node]

namespace Step

lemma Body.name_typed (h : Body s p) :
    p.typed.name = nodeName p.fused.operator (s.count p.fused.operator + 1) := by
  obtain ⟨outputs, -, hinfer⟩ := infer_ok h.infer
  have hlifted : p.lifted.name = nodeName p.fused.operator (s.count p.fused.operator + 1) := by
    rw [h.lifts.node, h.elides.node]
    rfl
  rw [hinfer, ← hlifted, ← h.reshapes.name]

lemma counts (h : Step s p s') :
    s'.counts = s.counts.insert p.fused.operator (s.count p.fused.operator + 1) := by
  have hlift : p.lifting.counts = p.elision.counts := by
    cases h.lifts with
    | writes _ _ _ state => rw [state]
    | operands _ _ _ _ drops => rw [drops.eq]
    | same _ _ _ state => rw [state]
  have helide : p.elision.counts = (s.nameNode p.fused).1.counts := by
    cases h.elides with
    | out _ _ _ _ _ _ state => rw [state]; rfl
    | past _ _ state => rw [state]
  rw [h.state, ImportState.push, hlift, helide]
  rfl

lemma count_eq (h : Step s p s') (o : Operator) :
    s'.count o = if o = p.fused.operator then s.count o + 1 else s.count o := by
  rw [ImportState.count, h.counts, Table.get?_insert]
  split
  · next ho => rw [ho]; rfl
  · rfl

end Step

/-- The number of a node is at most that of the last node of its operator. -/
lemma Run.name_typed (run : Run m ps rest s) (hq : q ∈ ps) :
    ∃ k ≤ s.count q.fused.operator, q.typed.name = nodeName q.fused.operator k := by
  induction run with
  | start => simp at hq
  | @step ps p rest s s' run next step ih =>
    rw [List.mem_append, List.mem_singleton] at hq
    rcases hq with hq | rfl
    · obtain ⟨k, hk, hname⟩ := ih hq
      refine ⟨k, hk.trans ?_, hname⟩
      rw [step.count_eq]
      split <;> omega
    · exact ⟨_, by rw [step.count_eq, if_pos rfl], step.name_typed⟩

/-- No two nodes of a run have the same name. -/
theorem Run.nodup_names (run : Run m ps rest s) : (ps.map fun p => p.typed.name).Nodup := by
  induction run with
  | start => simp
  | @step ps p rest s s' run next step ih =>
    rw [List.map_append, List.nodup_append]
    refine ⟨ih, by simp, fun x hx y hy hxy => ?_⟩
    obtain ⟨q, hq, rfl⟩ := List.mem_map.mp hx
    obtain rfl := List.mem_singleton.mp hy
    obtain ⟨k, hk, hname⟩ := run.name_typed hq
    obtain ⟨hop, hnum⟩ := nodeName_inj (hname.symm.trans (hxy.trans step.name_typed))
    rw [hop] at hk
    omega

/-- The name of a node tells its passage. -/
lemma Run.name_inj (run : Run m ps rest s) (hp : ps[i]? = some p) (hq : ps[j]? = some q)
    (h : p.typed.name = q.typed.name) : i = j := by
  have hi : (ps.map fun p => p.typed.name)[i]? = some p.typed.name := by simp [hp]
  have hj : (ps.map fun p => p.typed.name)[j]? = some p.typed.name := by simp [hq, h]
  have hlt := (List.getElem?_eq_some_iff.mp hi).1
  exact (List.getElem?_inj hlt run.nodup_names).mp (hi.trans hj.symm)

/-- An output of a run tells the passage that wrote it. -/
theorem Run.outputName_inj (run : Run m ps rest s) (hp : ps[i]? = some p) (hq : ps[j]? = some q)
    (h : ImportState.outputName p.typed k = ImportState.outputName q.typed l) : i = j ∧ k = l := by
  obtain ⟨hname, hnum⟩ := TensorGraph.outputName_inj h
  exact ⟨run.name_inj hp hq hname, hnum⟩

end TensorGraph
