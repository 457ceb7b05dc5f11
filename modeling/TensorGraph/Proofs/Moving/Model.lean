import TensorGraph.Proofs.Arrays
import TensorGraph.Proofs.Import.Trace
import TensorGraph.Proofs.Moving.Stages
import TensorGraph.Proofs.WellFormed

/-!
# Models with an array moved into a Constant

The Constant that holds an array of the file, the model in which it takes the place of the array
(`ModelMessage.moveArray`), and the models of which no node consults the array where no literal is
lifted (`ModelMessage.Movable`).
-/

namespace TensorGraph

open Onnx

namespace Onnx

/-- The Constant that writes an array. -/
def TensorMessage.toConstant (t : TensorMessage) : NodeMessage where
  operator := "Constant"
  outputs := [t.name]
  attributes := [{ name := "value", kind := .tensor, tensor := t }]

namespace ModelMessage

/-- The model with the array `t` in a Constant before the first node. -/
def moveArray (m : ModelMessage) (t : TensorMessage) : ModelMessage :=
  { m with
    nodes := t.toConstant :: m.nodes
    initializers := m.initializers.filter (·.name ≠ t.name) }

/-- The array `t` is no operand whose literal matters though no literal is lifted into it. -/
def Movable (m : ModelMessage) (t : TensorMessage) : Prop :=
  ∀ n ∈ m.nodes, ∀ o ∈ Operator.ofName? n.operator, ∀ i ∈ o.unlifted, n.inputs[i]? ≠ some t.name

instance (m : ModelMessage) (t : TensorMessage) : Decidable (m.Movable t) := by
  unfold Movable
  infer_instance

end ModelMessage

end Onnx

variable {m : ModelMessage} {t : TensorMessage} {a : Value} {r : Registry} {n n' : Node}
  {raw : NodeMessage} {o o' : Operator}

lemma Operator.Specialises.unlifted_subset (h : o.Specialises o') : o'.unlifted ⊆ o.unlifted := by
  cases hk : o'.spatialAxes? with
  | none =>
    rw [h.eq_of_no_axes hk]
    exact List.Subset.refl _
  | some k =>
    have : o'.unlifted = [] := by
      cases o' <;> first | rfl | simp [spatialAxes?] at hk
    simp [this]

/-- What is read off a message does not consult the array. -/
lemma Onnx.ModelMessage.Movable.apart (h : m.Movable t) (ht : t.toValue = .ok a) (hraw : raw ∈ m.nodes)
    (hn : r.convert raw = .ok n) (hnames : n.inputs.map Value.name = raw.inputs)
    (hs : n.specialise = .ok n') : n'.Apart a := by
  have hname : a.name = t.name := (Registry.toValue_ok ht).1
  have ho : Operator.ofName? raw.operator = some n.operator := by
    have := (convert_ok hn).1
    unfold NodeMessage.knownOperator at this
    split at this
    · next o ho => rw [ho, Except.ok.inj this]
    · simp at this
  obtain ⟨hspecialises, hn'⟩ := specialise_ok hs
  intro i hi v hv hva
  refine h raw hraw _ ho i (hspecialises.unlifted_subset hi) ?_
  rw [hn'] at hv
  rw [← hnames, List.getElem?_map, show n.inputs[i]? = some v from hv, Option.map_some, hva, hname]

end TensorGraph
