import Mathlib.Data.List.Nodup
import TensorGraph.Onnx.Value

/-!
# Well-formed models

A model is well formed if every name is defined once, and the nodes stand in order.
-/

namespace TensorGraph

/-- The names among `xs` that are not empty. -/
def named (xs : List String) : List String := xs.filter (· ≠ "")

lemma mem_named {x : String} {xs : List String} : x ∈ named xs ↔ x ∈ xs ∧ x ≠ "" := by
  simp [named]

/-- The end of the names of generated operands. -/
def generatedEnd : String := "_generated_const"

/-- The name may be that of a generated operand. -/
def Generated (x : String) : Prop := generatedEnd.toList <:+ x.toList

instance : DecidablePred Generated := fun _ => by
  unfold Generated
  infer_instance

namespace Onnx.ModelMessage

def inputNames (m : ModelMessage) : List String := m.inputs.map ValueMessage.name

def outputNames (m : ModelMessage) : List String := m.outputs.map ValueMessage.name

def initializerNames (m : ModelMessage) : List String := m.initializers.map TensorMessage.name

/-- The names that some nodes write, in the order of writing. -/
def written (nodes : List NodeMessage) : List String := nodes.flatMap fun n => named n.outputs

/-- The names of the values of a model. -/
def valueNames (m : ModelMessage) : List String :=
  m.inputNames ++ m.outputNames ++ m.initializerNames ++
    m.nodes.flatMap fun n => n.inputs ++ n.outputs

/-- Every name is that of a graph input, of an array, of both, or of one output of one node. A node
reads nothing that it writes itself, or that a later node writes. A Constant or an Identity has
one output, which has a name. -/
structure WellFormed (m : ModelMessage) : Prop where
  inputs_nodup : (named m.inputNames).Nodup
  initializers_nodup : (named m.initializerNames).Nodup
  written_nodup : (written m.nodes).Nodup
  written_inputs : ∀ x ∈ written m.nodes, x ∉ m.inputNames
  written_initializers : ∀ x ∈ written m.nodes, x ∉ m.initializerNames
  irreflexive : ∀ n ∈ m.nodes, ∀ x ∈ named n.inputs, x ∉ n.outputs
  ordered : m.nodes.Pairwise fun n n' => ∀ x ∈ named n.inputs, x ∉ n'.outputs
  single : ∀ n ∈ m.nodes, n.operator = "Constant" ∨ n.operator = "Identity" →
    n.outputs.length = 1 ∧ "" ∉ n.outputs

instance (m : ModelMessage) : Decidable m.WellFormed :=
  decidable_of_iff
    ((named m.inputNames).Nodup ∧ (named m.initializerNames).Nodup ∧ (written m.nodes).Nodup ∧
      (∀ x ∈ written m.nodes, x ∉ m.inputNames) ∧
      (∀ x ∈ written m.nodes, x ∉ m.initializerNames) ∧
      (∀ n ∈ m.nodes, ∀ x ∈ named n.inputs, x ∉ n.outputs) ∧
      (m.nodes.Pairwise fun n n' => ∀ x ∈ named n.inputs, x ∉ n'.outputs) ∧
      ∀ n ∈ m.nodes, n.operator = "Constant" ∨ n.operator = "Identity" →
        n.outputs.length = 1 ∧ "" ∉ n.outputs)
    ⟨fun ⟨h₁, h₂, h₃, h₄, h₅, h₆, h₇, h₈⟩ => ⟨h₁, h₂, h₃, h₄, h₅, h₆, h₇, h₈⟩,
      fun h => ⟨h.inputs_nodup, h.initializers_nodup, h.written_nodup, h.written_inputs,
        h.written_initializers, h.irreflexive, h.ordered, h.single⟩⟩

/-- Every graph input has a name. -/
def InputsNamed (m : ModelMessage) : Prop := ∀ d ∈ m.inputs, d.name ≠ ""

instance : DecidablePred InputsNamed := fun _ => by
  unfold InputsNamed
  infer_instance

/-- No two graph outputs have the same name. -/
def OutputsDistinct (m : ModelMessage) : Prop := m.outputNames.Nodup

instance : DecidablePred OutputsDistinct := fun _ => by
  unfold OutputsDistinct
  infer_instance

/-- A Constant has no operands. -/
def ConstantsClosed (m : ModelMessage) : Prop :=
  ∀ n ∈ m.nodes, n.operator = "Constant" → n.inputs = []

instance : DecidablePred ConstantsClosed := fun _ => by
  unfold ConstantsClosed
  infer_instance

/-- No value of the file bears a name that may be generated for an operand. -/
def NoGenerated (m : ModelMessage) : Prop := ∀ x ∈ m.valueNames, ¬ Generated x

instance : DecidablePred NoGenerated := fun _ => by
  unfold NoGenerated
  infer_instance

/-- The node at position `i` is an Add, directly after a MatMul whose product has no name. -/
def AddsToUnnamed (m : ModelMessage) (i : Nat) : Prop :=
  ∃ raw add, m.nodes[i - 1]? = some raw ∧ raw.operator = "MatMul" ∧ raw.outputs.head? = some "" ∧
    m.nodes[i]? = some add ∧ add.operator = "Add"

/-- An Add directly after a MatMul whose product has no name leaves out no operand. -/
def AddendsGiven (m : ModelMessage) : Prop :=
  ∀ i, m.AddsToUnnamed i → ∀ n ∈ m.nodes[i]?, "" ∉ n.inputs

/-- No Unsqueeze leaves its output unnamed where a graph input or output has no name. -/
def UnsqueezesApart (m : ModelMessage) : Prop :=
  ∀ n ∈ m.nodes, n.operator = "Unsqueeze" → n.outputs.head? = some "" →
    "" ∉ m.inputNames ∧ "" ∉ m.outputNames

instance : DecidablePred UnsqueezesApart := fun _ => by
  unfold UnsqueezesApart
  infer_instance

/-- Every name that a node reads is that of a graph input, of an array or of an output of an earlier
node. -/
def OperandsDefined (m : ModelMessage) : Prop :=
  ∀ i < m.nodes.length, ∀ n ∈ m.nodes[i]?, ∀ x ∈ named n.inputs,
    x ∈ m.inputNames ∨ x ∈ m.initializerNames ∨ x ∈ written (m.nodes.take i)

instance : DecidablePred OperandsDefined := fun _ => by
  unfold OperandsDefined
  infer_instance

variable {m : ModelMessage} {before nodes after : List NodeMessage} {n : NodeMessage} {x : String}

lemma written_append : written (nodes ++ after) = written nodes ++ written after := by
  simp [written]

@[simp] lemma written_nil : written [] = [] := rfl

lemma written_cons : written (n :: nodes) = named n.outputs ++ written nodes := by
  simp [written]

lemma mem_written : x ∈ written nodes ↔ x ≠ "" ∧ ∃ n ∈ nodes, x ∈ n.outputs := by
  simp only [written, List.mem_flatMap, mem_named]
  constructor
  · rintro ⟨n, hn, hx, hne⟩
    exact ⟨hne, n, hn, hx⟩
  · rintro ⟨hne, n, hn, hx⟩
    exact ⟨n, hn, hx, hne⟩

namespace WellFormed

/-- No two parts of a well-formed model write the same name. -/
lemma disjoint (hm : m.WellFormed) (h : m.nodes = before ++ nodes) (hx : x ∈ written before) :
    x ∉ written nodes := by
  have := hm.written_nodup
  rw [h, written_append, List.nodup_append] at this
  exact fun hx' => this.2.2 x hx x hx' rfl

lemma nodup (hm : m.WellFormed) (h : m.nodes = before ++ nodes ++ after) :
    (written nodes).Nodup := by
  have := hm.written_nodup
  rw [h, written_append, written_append] at this
  exact this.of_append_left.of_append_right

/-- A node of a well-formed model reads nothing that it or a later node writes. -/
lemma not_written_of_read (hm : m.WellFormed) (h : m.nodes = before ++ n :: after)
    (hx : x ∈ n.inputs) : x ∉ written (n :: after) := by
  intro hw
  obtain ⟨hne, n', hn', hx'⟩ := mem_written.mp hw
  have hread := mem_named.mpr ⟨hx, hne⟩
  obtain rfl | hn' := List.mem_cons.mp hn'
  · exact hm.irreflexive n' (by simp [h]) x hread hx'
  · have := hm.ordered
    rw [h] at this
    exact List.rel_of_pairwise_cons (List.pairwise_append.mp this).2.1 hn' x hread hx'

lemma single_output (hm : m.WellFormed) (hn : n ∈ m.nodes)
    (hop : n.operator = "Constant" ∨ n.operator = "Identity") :
    ∃ x, x ≠ "" ∧ n.outputs = [x] := by
  obtain ⟨hlen, hne⟩ := hm.single n hn hop
  obtain ⟨x, hx⟩ := List.length_eq_one_iff.mp hlen
  rw [hx, List.mem_singleton] at hne
  exact ⟨x, Ne.symm hne, hx⟩

end WellFormed

end Onnx.ModelMessage

end TensorGraph
