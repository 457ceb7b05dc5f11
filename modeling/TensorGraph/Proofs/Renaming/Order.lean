import TensorGraph.Import
import TensorGraph.Proofs.Order
import TensorGraph.Proofs.Renaming.Stages

/-!
# The order of nodes under a renaming

The check of the order of nodes ends alike for a model with other names for its values
(`ModelMessage.checkOrder_rename`), and so does the diagnosis of a naming error
(`ModelMessage.diagnose_rename`).
-/

namespace TensorGraph

open Onnx

variable {g : String → String} {t t' : Table String (List Nat)} {nodes : List Node} {m : ModelMessage}
  {i : Nat}

/-- Further readers are noted under names that the renaming leads to one another. -/
lemma noteReads_rename (hg : Renaming g) (vs : List Value)
    (h : ∀ x, t'.get? (g x) = t.get? x) (x : String) :
    (noteReads i t' (vs.map (Value.rename g))).get? (g x) = (noteReads i t vs).get? x := by
  induction vs generalizing t t' with
  | nil => exact h x
  | cons v vs ih =>
    simp only [List.map_cons, noteReads_cons, Value.name_rename, hg.eq_empty_iff]
    split
    · exact ih h
    · refine ih fun y => ?_
      simp only [Table.get?_insert, hg.apply_eq_iff, h]

lemma get?_readers_rename (hg : Renaming g) (x : String) :
    (readers (nodes.map (Node.rename g))).get? (g x) = (readers nodes).get? x := by
  rw [readers_eq, readers_eq, List.zipIdx_map]
  suffices h : ∀ (ns : List (Node × Nat)) {t t' : Table String (List Nat)},
      (∀ y, t'.get? (g y) = t.get? y) → ∀ y,
        ((ns.map (Prod.map (Node.rename g) id)).foldl noteReadsOf t').get? (g y) =
        (ns.foldl noteReadsOf t).get? y from
    h _ (fun _ => rfl) x
  intro ns
  induction ns with
  | nil => exact fun h => h
  | cons n ns ih => exact fun h => ih (noteReads_rename hg n.1.inputs h)

lemma checkReaders_rename (hg : Renaming g) (h : ∀ x, t'.get? (g x) = t.get? x) (i : Nat)
    (vs : List Value) :
    Agree (· = ·) (checkReaders t i vs) (checkReaders t' i (vs.map (Value.rename g))) := by
  have hread : List.Forall₂ (fun v w => w = v.rename g) vs (vs.map (Value.rename g)) :=
    List.forall₂_map_right_iff.mpr (List.forall₂_same.mpr fun _ _ => rfl)
  refine Agree.forM hread ?_
  rintro v _ rfl
  simp only [Value.name_rename, hg.eq_empty_iff, h]
  split
  · exact .ok trivial
  · split
    · exact .error ⟨rfl, rfl⟩
    · exact .ok trivial

theorem checkOrder_rename (hg : Renaming g) :
    Agree (· = ·) (checkOrder nodes) (checkOrder (nodes.map (Node.rename g))) := by
  unfold checkOrder
  rw [List.zipIdx_map]
  have hread : List.Forall₂ (fun a b => b = Prod.map (Node.rename g) id a) nodes.zipIdx
      (nodes.zipIdx.map (Prod.map (Node.rename g) id)) :=
    List.forall₂_map_right_iff.mpr (List.forall₂_same.mpr fun _ _ => rfl)
  refine Agree.forM hread ?_
  rintro ⟨n, i⟩ _ rfl
  exact checkReaders_rename hg (get?_readers_rename hg) i n.outputs

namespace Onnx

lemma NodeMessage.toBareNode_rename (raw : NodeMessage) :
    Agree (fun n n' => n' = n.rename g) raw.toBareNode (raw.rename g).toBareNode := by
  unfold NodeMessage.toBareNode
  refine (Agree.refl raw.toAttributes).bind fun attributes _ _ _ hattributes => .pure ?_
  subst hattributes
  simp [Node.rename, NodeMessage.rename, bareValue, Value.rename]

namespace ModelMessage

theorem checkOrder_rename (hg : Renaming g) :
    Agree (· = ·) m.checkOrder (m.rename g).checkOrder := by
  have hread : List.Forall₂ (fun a b => b = a.rename g) m.nodes (m.rename g).nodes :=
    List.forall₂_map_right_iff.mpr (List.forall₂_same.mpr fun _ _ => rfl)
  unfold ModelMessage.checkOrder
  refine (Agree.mapM hread fun raw raw' h => h ▸ raw.toBareNode_rename).bind
    fun ns ns' _ _ hns => ?_
  obtain rfl : ns' = ns.map (Node.rename g) := by
    rw [← List.forall₂_eq_eq_eq, List.forall₂_map_right_iff]
    exact hns.flip
  exact TensorGraph.checkOrder_rename hg

lemma diagnose_of_not_naming {α : Type} {e : Error} (he : ∀ a, e ≠ .naming a) :
    m.diagnose (.error e : Except Error α) = .error e := by
  cases e with
  | naming a => exact absurd rfl (he a)
  | _ => rfl

/-- A naming error is diagnosed alike: it is one in both runs. -/
lemma diagnose_rename {α β : Type} {R : α → β → Prop} {x : Except Error α} {y : Except Error β}
    (hg : Renaming g) (h : Agree R x y) : Agree R (m.diagnose x) ((m.rename g).diagnose y) := by
  cases x with
  | ok a =>
    cases y with
    | ok b => exact h
    | error e => exact h.elim
  | error e =>
    cases y with
    | ok b => exact h.elim
    | error e' =>
      have halike : e.Alike e' := h
      by_cases he : ∃ a, e = .naming a
      · obtain ⟨a, rfl⟩ := he
        obtain ⟨a', rfl⟩ := halike.naming
        exact (checkOrder_rename hg).bind fun _ _ _ _ _ => .error (Error.alike_naming a a')
      · have he' : ¬ ∃ a, e' = .naming a := fun ⟨a, ha⟩ => he (ha ▸ halike).symm.naming
        rw [diagnose_of_not_naming fun a ha => he ⟨a, ha⟩,
          diagnose_of_not_naming fun a ha => he' ⟨a, ha⟩]
        exact h

end ModelMessage

end Onnx

end TensorGraph
