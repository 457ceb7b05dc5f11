import TensorGraph.Proofs.Agreement
import TensorGraph.Typing

/-!
# What typing sees of a node

The types of a node's outputs depend on its operator and its attributes, on the types of its
operands and which of them are there, and on the literals that a few operators consult
(`Node.typedOutputs_agree`). Most rules read no more of a type than its elements, its rank and its
sizes (`Node.SameReading`).
-/

namespace TensorGraph

open Typing

/-- The value is there: it has a name or a literal. -/
def Value.present (v : Value) : Bool := v.name ≠ "" || v.literal.isSome

/-- Typing takes the values for one another, but for their literals. -/
structure Value.SameView (v w : Value) : Prop where
  type : v.type = w.type
  present : v.present = w.present

/-- The places of the operands whose literals are consulted by typing. -/
def Operator.consulted : Operator → List Nat
  | .reshape | .unsqueeze | .squeeze => [1]
  | .reduceMax | .reduceMean | .reduceMin | .reduceProd | .reduceSum => [1]
  | .constantOfShape => [0]
  | _ => []

/-- The literal of an operand. -/
def Node.literal? (n : Node) (place : Nat) : Option Literal := n.inputs[place]?.bind Value.literal

/-- Typing takes the nodes for one another. -/
structure Node.SameView (n n' : Node) : Prop where
  operator : n.operator = n'.operator
  attributes : n.attributes = n'.attributes
  inputs : List.Forall₂ Value.SameView n.inputs n'.inputs
  outputs : List.Forall₂ (fun v w => v.type = w.type) n.outputs n'.outputs
  literals : ∀ place ∈ n.operator.consulted, n.literal? place = n'.literal? place

/-- The types have the same elements, the same rank and the same sizes. -/
structure ValueType.SameReading (t t' : ValueType) : Prop where
  element : t.element = t'.element
  rank : t.rank = t'.rank
  dims : t.dims? = t'.dims?

lemma ValueType.SameReading.refl (t : ValueType) : t.SameReading t := ⟨rfl, rfl, rfl⟩

/-- The rules that read no more of a type take the values for one another. -/
structure Value.SameReading (v w : Value) : Prop extends v.type.SameReading w.type where
  present : v.present = w.present

/-- The rules that read no more of a type take the nodes for one another. -/
structure Node.SameReading (n n' : Node) : Prop where
  operator : n.operator = n'.operator
  attributes : n.attributes = n'.attributes
  inputs : List.Forall₂ Value.SameReading n.inputs n'.inputs
  outputs : List.Forall₂ (fun _ _ => True) n.outputs n'.outputs
  literals : ∀ place ∈ n.operator.consulted, n.literal? place = n'.literal? place

lemma Value.SameView.reading {v w : Value} (h : v.SameView w) : v.SameReading w :=
  ⟨h.type ▸ .refl _, h.present⟩

lemma Node.SameView.reading {n n' : Node} (h : n.SameView n') : n.SameReading n' :=
  ⟨h.operator, h.attributes, h.inputs.imp fun _ _ => Value.SameView.reading,
    h.outputs.imp fun _ _ _ => trivial, h.literals⟩

section Values

variable {vs ws : List Value}

lemma maxRank_congr (h : List.Forall₂ (fun v w => v.type.rank = w.type.rank) vs ws) :
    maxRank vs = maxRank ws := by
  unfold maxRank
  rw [map_eq_map_of_forall₂ h fun _ _ => Eq.symm]

lemma promoteAll_congr (h : List.Forall₂ (fun v w => v.type.element = w.type.element) vs ws) :
    promoteAll vs = promoteAll ws := by
  have hfold : ∀ {vs ws : List Value} (t : ElementType),
      List.Forall₂ (fun v w => v.type.element = w.type.element) vs ws →
      vs.foldlM (fun t w => t.promote w.type.element) t =
        ws.foldlM (fun t w => t.promote w.type.element) t := by
    intro vs ws t h
    induction h generalizing t with
    | nil => rfl
    | cons hv _ ih => simp only [List.foldlM_cons, hv, ih]
  cases h with
  | nil => rfl
  | cons hv hvs => simp only [promoteAll, hv, hfold _ hvs]

lemma entrywiseElement_congr (h : List.Forall₂ (fun v w => v.type.element = w.type.element) vs ws)
    (o : Operator) : entrywiseElement o vs = entrywiseElement o ws := by
  unfold entrywiseElement
  split
  · rw [promoteAll_congr (List.forall₂_take 1 h)]
  · rw [promoteAll_congr h]

lemma any_rank_congr (h : List.Forall₂ (fun v w => v.type.rank = w.type.rank) vs ws) (rank : Size) :
    (vs.any fun v => ! v.type.rank.equals rank) = ws.any fun v => ! v.type.rank.equals rank := by
  induction h with
  | nil => rfl
  | cons hv _ ih => rw [List.any_cons, List.any_cons, ih, hv]

lemma mapM_dims_congr (h : List.Forall₂ (fun v w => v.type.dims? = w.type.dims?) vs ws) :
    vs.mapM (·.type.dims?) = ws.mapM (·.type.dims?) := by
  induction h with
  | nil => rfl
  | cons hv _ ih => rw [List.mapM_cons, List.mapM_cons, ih, hv]

lemma sizeCounts?_congr (h : List.Forall₂ (fun v w => v.type = w.type) vs ws) :
    sizeCounts? vs = sizeCounts? ws := by
  unfold sizeCounts?
  induction h with
  | nil => rfl
  | cons hv _ ih => rw [List.mapM_cons, List.mapM_cons, ih, hv]

lemma eq_nil_congr {R : Value → Value → Prop} (h : List.Forall₂ R vs ws) : vs = [] ↔ ws = [] := by
  cases h <;> simp

end Values

section Attributes

variable {n n' : Node} (h : n.attributes = n'.attributes)

include h

lemma Node.attribute?_congr (key : String) : n.attribute? key = n'.attribute? key := by
  rw [Node.attribute?, Node.attribute?, h]

lemma Node.intList_congr (key : String) (default : List Int) :
    n.intList key default = n'.intList key default := by
  rw [Node.intList, Node.intList, Node.attribute?_congr h]

lemma Node.quantity_congr (key : String) (default : Size) :
    n.quantity key default = n'.quantity key default := by
  rw [Node.quantity, Node.quantity, Node.attribute?_congr h]

lemma Node.flag_congr (key : String) (default : Bool) :
    n.flag key default = n'.flag key default := by
  rw [Node.flag, Node.flag, Node.attribute?_congr h]

lemma Node.integers?_congr {place : Nat} (hliteral : n.literal? place = n'.literal? place)
    (key : String) : n.integers? place key = n'.integers? place key := by
  unfold Node.literal? at hliteral
  rw [Node.integers?, Node.integers?, hliteral, Node.attribute?_congr h]

lemma fillElement_congr : fillElement n = fillElement n' := by
  simp only [fillElement, Node.attribute?_congr h]

lemma keepZeros_congr (dims : List Size) (target : List Int) :
    keepZeros n dims target = keepZeros n' dims target := by
  simp only [keepZeros, Node.flag_congr h]

lemma permutation_congr (rank : Size) : permutation n rank = permutation n' rank := by
  simp only [permutation, Node.attribute?_congr h]

lemma joinAxis_congr (rank : Size) : joinAxis n rank = joinAxis n' rank := by
  simp only [joinAxis, Node.quantity_congr h]

lemma spatialDims_congr (dims kernel : List Size) :
    spatialDims n dims kernel = spatialDims n' dims kernel := by
  simp only [spatialDims, coversAxes, Node.attribute?_congr h, Node.intList_congr h]

lemma kernelSizes_congr (default : List Size) : kernelSizes n default = kernelSizes n' default := by
  simp only [kernelSizes, Node.attribute?_congr h, Node.intList_congr h]

lemma groupsDivide_congr (channels : Size) :
    groupsDivide n channels = groupsDivide n' channels := by
  simp only [groupsDivide, Node.quantity_congr h]

lemma groupedChannels_congr (channels : Size) :
    groupedChannels n channels = groupedChannels n' channels := by
  simp only [groupedChannels, Node.attribute?_congr h]

end Attributes

namespace Node

variable {n : Node} {v w : Value} {i : Nat}

lemma input_eq_ok : n.input i = .ok v ↔ n.inputs[i]? = some v := by
  unfold input
  split <;> simp_all

lemma output_eq_ok : n.output i = .ok v ↔ n.outputs[i]? = some v := by
  unfold output
  split <;> simp_all

lemma input_zero_eq_ok : n.input 0 = .ok v ↔ ∃ vs, n.inputs = v :: vs := by
  rw [input_eq_ok]
  cases n.inputs <;> simp

lemma output_zero_eq_ok : n.output 0 = .ok v ↔ ∃ vs, n.outputs = v :: vs := by
  rw [output_eq_ok]
  cases n.outputs <;> simp

lemma inputs_eq_cons_cons (hv : n.input 0 = .ok v) (hw : n.input 1 = .ok w) :
    ∃ us, n.inputs = v :: w :: us := by
  rw [input_eq_ok] at hv hw
  match hin : n.inputs with
  | [] => simp [hin] at hv
  | [u] => simp [hin] at hw
  | u :: u' :: us =>
    simp only [hin, List.getElem?_cons_zero, List.getElem?_cons_succ, Option.some.injEq] at hv hw
    exact ⟨us, by rw [hv, hw]⟩

end Node

/-- A selection from anything but a vector of sizes. -/
lemma gather_of_ne_shape {n : Node} {v i : Value} (hv : n.input 0 = .ok v) (hi : n.input 1 = .ok i)
    (hne : ∀ rank, v.type ≠ .shape rank) : gather n = (do
      let axis ← (← n.quantity "axis" 0).normalize v.type.rank
      let shape ← match v.type.dims?, i.type.dims? with
        | some ds, some is => (replacedAt axis ds is).map some
        | _, _ => pure none
      let rank ← (← v.type.rank.add i.type.rank).sub 1
      return .ofRank v.type.element rank shape) := by
  obtain ⟨name, t, literal, used⟩ := v
  simp only [gather, hv, hi]
  cases t with
  | shape rank => exact absurd rfl (hne rank)
  | tensor t dim dims => rfl
  | scalar t => rfl

section Operands

variable {n n' : Node} {R : Value → Value → Prop} (h : List.Forall₂ R n.inputs n'.inputs)

include h

/-- The nodes both have an operand, and these are related, or neither has one. -/
lemma Node.input_cases (i : Nat) :
    (∃ v w, n.input i = .ok v ∧ n'.input i = .ok w ∧ R v w) ∨
      (n.input i = outOfRange ∧ n'.input i = outOfRange) := by
  have hlen := h.length_eq
  unfold Node.input
  rcases Nat.lt_or_ge i n.inputs.length with hi | hi
  · have hi' : i < n'.inputs.length := hlen ▸ hi
    rw [List.getElem?_eq_getElem hi, List.getElem?_eq_getElem hi']
    exact .inl ⟨_, _, rfl, rfl, List.Forall₂.get h hi hi'⟩
  · rw [List.getElem?_eq_none hi, List.getElem?_eq_none (hlen ▸ hi)]
    exact .inr ⟨rfl, rfl⟩

lemma Node.input_agree (i : Nat) : Agree R (n.input i) (n'.input i) := by
  obtain ⟨v, w, hv, hw, hvw⟩ | ⟨hv, hw⟩ := Node.input_cases h i
  · rw [hv, hw]
    exact .ok hvw
  · rw [hv, hw]
    exact .error (.refl _)

/-- What is done with an operand is the same, as long as nothing else of it matters. -/
lemma Node.input_congr {α : Type} {i : Nat} {f f' : Value → Except Error α}
    (hf : ∀ v w, R v w → f v = f' w) : n.input i >>= f = n'.input i >>= f' := by
  obtain ⟨v, w, hv, hw, hvw⟩ | ⟨hv, hw⟩ := Node.input_cases h i
  · rw [hv, hw]
    exact hf v w hvw
  · rw [hv, hw]
    rfl

lemma presentOperands_forall₂ (hR : ∀ v w, R v w → v.present = w.present) :
    List.Forall₂ R (presentOperands n) (presentOperands n') := by
  have hfilter : List.Forall₂ R (n.inputs.filter Value.present) (n'.inputs.filter Value.present) :=
    forall₂_filter (h.imp fun v w hv => ⟨hR v w hv, fun _ => hv⟩)
  unfold Typing.presentOperands
  unfold Value.present at hfilter
  generalize n.inputs.filter _ = vs, n'.inputs.filter _ = ws at hfilter ⊢
  cases hfilter with
  | nil => exact h
  | cons hv hrest => exact .cons hv hrest

end Operands

section Products

variable {n n' : Node}
  (h : List.Forall₂ (fun v w => v.type.SameReading w.type) n.inputs n'.inputs)

include h

/-- Layers and general products read no more of their operands than their types. -/
lemma linear_congr : linear n = linear n' := by
  unfold linear
  refine Node.input_congr h fun v w hv => Node.input_congr h fun v' w' hv' => ?_
  rw [hv.element, hv.rank, hv.dims, hv'.rank, hv'.dims]

lemma gemm_congr (hattributes : n.attributes = n'.attributes) : gemm n = gemm n' := by
  simp only [gemm, Node.flag_congr hattributes]
  refine Node.input_congr h fun v w hv => Node.input_congr h fun v' w' hv' => ?_
  rw [hv.element, hv.dims, hv'.dims]

end Products

/-- The node `n'` is `n` with other operands, each of which is related to the one in its place. -/
structure Node.Over (R : Value → Value → Prop) (n n' : Node) : Prop where
  operator : n'.operator = n.operator
  name : n'.name = n.name
  inputs : List.Forall₂ R n.inputs n'.inputs
  outputs : n'.outputs = n.outputs
  attributes : n'.attributes = n.attributes

lemma Node.literal?_congr {n n' : Node}
    (h : List.Forall₂ (fun v w => w.literal = v.literal) n.inputs n'.inputs) (place : Nat) :
    n.literal? place = n'.literal? place := by
  have hmap := congrArg (·[place]?) (map_eq_map_of_forall₂ h fun _ _ => id)
  simp only [List.getElem?_map] at hmap
  unfold Node.literal?
  cases hv : n.inputs[place]? <;> cases hw : n'.inputs[place]? <;> simp_all

namespace Node.Over

variable {n n' : Node} {R : Value → Value → Prop}

lemma input (h : n.Over R n') (i : Nat) : Agree R (n.input i) (n'.input i) :=
  Node.input_agree h.inputs i

lemma output (h : n.Over R n') (i : Nat) : n'.output i = n.output i := by
  simp only [Node.output, h.outputs]

end Node.Over

/-- The value `w` is `v` with a type that is related to that of `v`. -/
structure Value.Over (R : ValueType → ValueType → Prop) (v w : Value) : Prop where
  name : w.name = v.name
  literal : w.literal = v.literal
  used : w.used = v.used
  type : R v.type w.type

namespace Value.Over

variable {v w : Value} {R : ValueType → ValueType → Prop} (h : v.Over R w)

include h

lemma present : v.present = w.present := by
  simp only [Value.present, h.name, h.literal]

lemma eq (ht : w.type = v.type) : w = v := by
  have hname := h.name
  have hliteral := h.literal
  have hused := h.used
  cases v
  cases w
  simp_all

end Value.Over

namespace Node.Over

variable {n n' : Node} {R : ValueType → ValueType → Prop} (h : n.Over (Value.Over R) n')

include h

lemma literal? (place : Nat) : n.literal? place = n'.literal? place :=
  Node.literal?_congr (h.inputs.imp fun _ _ hv => hv.literal) place

lemma integers? (place : Nat) (key : String) : n.integers? place key = n'.integers? place key :=
  Node.integers?_congr h.attributes.symm (h.literal? place) key

lemma type? (i : Nat) :
    Option.Rel R (n.inputs[i]?.map Value.type) (n'.inputs[i]?.map Value.type) := by
  rcases Nat.lt_or_ge i n.inputs.length with hi | hi
  · have hi' : i < n'.inputs.length := h.inputs.length_eq ▸ hi
    rw [List.getElem?_eq_getElem hi, List.getElem?_eq_getElem hi']
    exact .some (List.Forall₂.get h.inputs hi hi').type
  · rw [List.getElem?_eq_none hi, List.getElem?_eq_none (h.inputs.length_eq ▸ hi)]
    exact .none

lemma keepType (hrefl : ∀ t, R t t) :
    List.Forall₂ (fun v w => R v.type w.type) (keepType n) (keepType n') := by
  have hin := h.inputs
  unfold Typing.keepType
  rw [h.outputs]
  generalize n.inputs = vs, n'.inputs = ws at hin
  cases hin with
  | nil => exact List.forall₂_same.mpr fun v _ => hrefl v.type
  | cons hv _ =>
    rw [List.forall₂_map_left_iff, List.forall₂_map_right_iff]
    exact List.forall₂_same.mpr fun _ _ => hv.type

end Node.Over

namespace Node.SameReading

variable {n n' : Node} (h : n.SameReading n') {α : Type}

include h

lemma ranks : List.Forall₂ (fun v w => v.type.rank = w.type.rank) n.inputs n'.inputs :=
  h.inputs.imp fun _ _ hv => hv.rank

lemma dims : List.Forall₂ (fun v w => v.type.dims? = w.type.dims?) n.inputs n'.inputs :=
  h.inputs.imp fun _ _ hv => hv.dims

lemma input {i : Nat} {f f' : Value → Except Error α}
    (hf : ∀ v w, v.SameReading w → f v = f' w) : n.input i >>= f = n'.input i >>= f' :=
  Node.input_congr h.inputs hf

lemma output {i : Nat} {f f' : Value → Except Error α} (hf : ∀ v w, f v = f' w) :
    n.output i >>= f = n'.output i >>= f' := by
  have hlen := h.outputs.length_eq
  unfold Node.output
  rcases Nat.lt_or_ge i n.outputs.length with hi | hi
  · have hi' : i < n'.outputs.length := hlen ▸ hi
    rw [List.getElem?_eq_getElem hi, List.getElem?_eq_getElem hi']
    exact hf _ _
  · have hi' : n'.outputs.length ≤ i := hlen ▸ hi
    rw [List.getElem?_eq_none hi, List.getElem?_eq_none hi']
    rfl

lemma leadingDim? (i : Nat) : n.inputs[i]?.bind (Typing.leadingDim? ·.type) =
    n'.inputs[i]?.bind (Typing.leadingDim? ·.type) := by
  have hmap := congrArg (·[i]?) (map_eq_map_of_forall₂ h.dims fun _ _ => Eq.symm)
  simp only [List.getElem?_map] at hmap
  have hbind := congrArg (Option.bind · (·.bind List.head?)) hmap.symm
  simpa only [Option.bind_map, Function.comp_def, Typing.leadingDim?] using hbind

lemma entrywise : entrywise n = entrywise n' := by
  have hp := presentOperands_forall₂ h.inputs fun _ _ hv => hv.present
  simp only [Typing.entrywise, broadcastShape, h.operator, h.outputs.length_eq,
    eq_nil_congr h.inputs, entrywiseElement_congr (hp.imp fun _ _ hv => hv.element),
    maxRank_congr (hp.imp fun _ _ hv => hv.rank), mapM_dims_congr (hp.imp fun _ _ hv => hv.dims)]

lemma select : select n = select n' := by
  simp only [Typing.select, broadcastShape, h.inputs.length_eq, h.outputs.length_eq,
    maxRank_congr h.ranks, mapM_dims_congr h.dims]
  split
  · rfl
  · refine bind_congr fun rank => bind_congr fun shape => h.input fun v w hv => ?_
    rw [hv.element]

lemma shape : shape n = shape n' := by
  simp only [Typing.shape, h.inputs.length_eq, h.outputs.length_eq,
    Node.quantity_congr h.attributes]
  split
  · rfl
  · refine h.input fun v w hv => ?_
    rw [hv.rank]

/-- Of a target that is known only when the graph runs, the type itself is read. -/
lemma reshape (hop : n.operator = .reshape)
    (htarget : ∀ t, reshapeAtRun t (n.inputs[1]?.map Value.type) =
      reshapeAtRun t (n'.inputs[1]?.map Value.type)) : reshape n = reshape n' := by
  have hints := Node.integers?_congr h.attributes (h.literals 1 (by simp [hop, Operator.consulted]))
  have hto : ∀ t t' target, t.SameReading t' → reshapeTo n t target = reshapeTo n' t' target := by
    intro t t' target ht
    simp only [reshapeTo, keepZeros_congr h.attributes, ht.element, ht.dims]
  have hrun : ∀ t t' target, t.SameReading t' → reshapeAtRun t target = reshapeAtRun t' target := by
    intro t t' target ht
    simp only [reshapeAtRun, ht.element]
  simp only [Typing.reshape, h.inputs.length_eq, h.outputs.length_eq, hints]
  split
  · rfl
  · refine h.input fun v w hv => bind_congr fun target => ?_
    cases target with
    | none => rw [htarget, hrun _ _ _ hv.toSameReading]
    | some target => exact hto _ _ target hv.toSameReading

lemma unsqueeze (hop : n.operator = .unsqueeze) : unsqueeze n = unsqueeze n' := by
  have hints := Node.integers?_congr h.attributes (h.literals 1 (by simp [hop, Operator.consulted]))
  simp only [Typing.unsqueeze, unsqueezeAt, hints, h.leadingDim?]
  refine h.input fun v w hv => h.output fun _ _ => bind_congr fun axes => ?_
  rw [hv.element, hv.rank, hv.dims]

lemma squeeze (hop : n.operator = .squeeze) : squeeze n = squeeze n' := by
  have hints := Node.integers?_congr h.attributes (h.literals 1 (by simp [hop, Operator.consulted]))
  simp only [Typing.squeeze, squeezeAt, hints]
  refine h.input fun v w hv => h.output fun _ _ => bind_congr fun axes => ?_
  rw [hv.element, hv.rank, hv.dims]

lemma flatten : flatten n = flatten n' := by
  simp only [Typing.flatten, Node.quantity_congr h.attributes]
  refine h.input fun v w hv => ?_
  rw [hv.element, hv.rank, hv.dims]

lemma transpose : transpose n = transpose n' := by
  simp only [Typing.transpose, h.inputs.length_eq, h.outputs.length_eq,
    permutation_congr h.attributes]
  split
  · rfl
  · refine h.input fun v w hv => ?_
    rw [hv.element, hv.rank, hv.dims]

/-- Whether all operands are vectors of sizes does matter. -/
lemma concat (hcounts : sizeCounts? n.inputs = sizeCounts? n'.inputs) : concat n = concat n' := by
  simp only [Typing.concat, h.outputs.length_eq, eq_nil_congr h.inputs, hcounts,
    mapM_dims_congr h.dims, any_rank_congr h.ranks, joinAxis_congr h.attributes]
  split
  · rfl
  · split
    · rfl
    · refine h.input fun v w hv => ?_
      rw [hv.element, hv.rank]

lemma matMul : matMul n = matMul n' := by
  have hin := h.inputs
  have hout := h.outputs
  unfold Typing.matMul
  generalize n.inputs = vs, n'.inputs = ws, n.outputs = os, n'.outputs = os' at hin hout
  rcases hin with _ | ⟨ha, _ | ⟨hb, _ | _⟩⟩ <;> rcases hout with _ | ⟨_, _ | _⟩ <;> try rfl
  simp only [ha.element, ha.rank, ha.dims, hb.element, hb.rank, hb.dims]

lemma linear : linear n = linear n' :=
  linear_congr (h.inputs.imp fun _ _ hv => hv.toSameReading)

lemma gemm : gemm n = gemm n' :=
  gemm_congr (h.inputs.imp fun _ _ hv => hv.toSameReading) h.attributes

lemma conv : conv n = conv n' := by
  have hin := h.inputs
  have hout := h.outputs
  simp only [Typing.conv, h.operator, groupsDivide_congr h.attributes,
    kernelSizes_congr h.attributes, spatialDims_congr h.attributes]
  generalize n.inputs = vs, n'.inputs = ws, n.outputs = os, n'.outputs = os' at hin hout
  rcases hin with _ | ⟨ha, _ | ⟨hb, _⟩⟩ <;> rcases hout with _ | ⟨_, _ | _⟩ <;> try rfl
  simp only [ha.element, ha.rank, ha.dims, hb.dims]

lemma convTranspose : convTranspose n = convTranspose n' := by
  simp only [Typing.convTranspose, h.operator, kernelSizes_congr h.attributes,
    Node.intList_congr h.attributes, groupedChannels_congr h.attributes]
  refine h.input fun v w hv => h.input fun v' w' hv' => ?_
  rw [hv.element, hv.rank, hv.dims, hv'.dims]

lemma pool : pool n = pool n' := by
  have hnil : n.outputs = [] ↔ n'.outputs = [] := by
    rw [← List.length_eq_zero_iff, h.outputs.length_eq, List.length_eq_zero_iff]
  simp only [Typing.pool, h.operator, hnil, Node.intList_congr h.attributes,
    spatialDims_congr h.attributes]
  split
  · rfl
  · refine h.input fun v w hv => ?_
    rw [hv.element, hv.rank, hv.dims]

lemma globalPool : globalPool n = globalPool n' := by
  unfold Typing.globalPool
  refine h.input fun v w hv => ?_
  rw [hv.element, hv.rank, hv.dims]

lemma reduce (hop : n.operator = .argMax ∨ 1 ∈ n.operator.consulted) : reduce n = reduce n' := by
  have hplaces : ∀ rank, reducedPlaces n rank = reducedPlaces n' rank := by
    intro rank
    rcases hop with hop | hop
    · simp only [reducedPlaces, ← h.operator, hop, if_true, greatestAxis,
        Node.quantity_congr h.attributes]
    · simp only [reducedPlaces, h.operator, greatestAxis, Node.quantity_congr h.attributes,
        Node.integers?_congr h.attributes (h.literals 1 hop)]
  simp only [Typing.reduce, hplaces, Node.flag_congr h.attributes, h.operator]
  refine h.input fun v w hv => ?_
  rw [hv.element, hv.rank, hv.dims]

/-- A Constant without a literal fails with an error that bears its name. -/
lemma constant : Agree (· = ·) (Typing.constant n) (Typing.constant n') := by
  have hfind : (StructureError.literalKeys.findSome? fun key =>
        (n.attribute? key).map fun v => (key, v)) =
      StructureError.literalKeys.findSome? fun key =>
        (n'.attribute? key).map fun v => (key, v) := by
    simp only [Node.attribute?_congr h.attributes]
  unfold Typing.constant Node.constant
  rw [hfind]
  split
  · exact .refl _
  · exact .error ⟨rfl, rfl⟩

/-- Five rules do not take types with one reading for one another: a conversion, a fill, a target
shape, a join and a selection look for vectors of sizes. -/
theorem rule {rule : Node → Except Error ValueType} (hrule : rule? n.operator = some rule)
    (hop : n.operator ∉ [.cast, .constantOfShape, .reshape, .concat, .gather]) :
    Agree (· = ·) (rule n) (rule n') := by
  cases ho : n.operator <;>
    simp only [ho, rule?, Option.some.injEq, reduceCtorEq] at hrule <;> subst hrule
  case cast | constantOfShape | reshape | concat | gather => simp [ho] at hop
  case select => exact .of_eq h.select
  case constant => exact h.constant
  case shape => exact .of_eq h.shape
  case unsqueeze => exact .of_eq (h.unsqueeze ho)
  case squeeze => exact .of_eq (h.squeeze ho)
  case flatten => exact .of_eq h.flatten
  case transpose => exact .of_eq h.transpose
  case matMul => exact .of_eq h.matMul
  case linear => exact .of_eq h.linear
  case gemm => exact .of_eq h.gemm
  case conv | conv1d | conv2d | conv3d => exact .of_eq h.conv
  case convTranspose | convTranspose1d | convTranspose2d | convTranspose3d =>
    exact .of_eq h.convTranspose
  case maxPool | maxPool1d | maxPool2d | averagePool | averagePool1d | averagePool2d =>
    exact .of_eq h.pool
  case globalAveragePool | globalMaxPool => exact .of_eq h.globalPool
  case reduceMax | reduceMean | reduceMin | reduceProd | reduceSum =>
    exact .of_eq (h.reduce (.inr (by simp [ho, Operator.consulted])))
  case argMax => exact .of_eq (h.reduce (.inl ho))
  all_goals exact .of_eq h.entrywise

end Node.SameReading

namespace Node.SameView

variable {n n' : Node} (h : n.SameView n') {α : Type}

include h

lemma type? (i : Nat) : n.inputs[i]?.map Value.type = n'.inputs[i]?.map Value.type := by
  rw [← List.getElem?_map, ← List.getElem?_map]
  exact congrArg (·[i]?) (map_eq_map_of_forall₂ h.inputs fun _ _ hv => hv.type.symm).symm

/-- What is done with an operand whose literal is consulted. -/
lemma input_consulted {i : Nat} (hi : i ∈ n.operator.consulted) {f f' : Value → Except Error α}
    (hf : ∀ v w, v.type = w.type → v.literal = w.literal → f v = f' w) :
    n.input i >>= f = n'.input i >>= f' := by
  have htype := h.type? i
  have hlit := h.literals i hi
  unfold Node.literal? at hlit
  unfold Node.input
  cases hv : n.inputs[i]? <;> cases hw : n'.inputs[i]? <;> rw [hv, hw] at htype hlit
  · rfl
  · simp at htype
  · simp at htype
  · exact hf _ _ (Option.some.inj htype) hlit

lemma cast : cast n = cast n' := by
  simp only [Typing.cast, h.inputs.length_eq, h.outputs.length_eq,
    Node.attribute?_congr h.attributes]
  split
  · rfl
  · split
    · refine bind_congr fun t => Node.input_congr h.inputs fun v w hv => ?_
      rw [hv.type]
    · rfl

lemma constantOfShape (hop : n.operator = .constantOfShape) :
    constantOfShape n = constantOfShape n' := by
  simp only [Typing.constantOfShape, fillElement_congr h.attributes]
  refine bind_congr fun t => h.input_consulted (by simp [hop, Operator.consulted]) ?_
  intro v w htype hlit
  rw [htype, hlit]

lemma gather : gather n = gather n' := by
  simp only [Typing.gather, Node.quantity_congr h.attributes]
  refine Node.input_congr h.inputs fun v w hv => Node.input_congr h.inputs fun v' w' hv' => ?_
  rw [hv.type, hv'.type]

/-- A rule gives the nodes one type. -/
theorem rule {rule : Node → Except Error ValueType} (hrule : rule? n.operator = some rule) :
    Agree (· = ·) (rule n) (rule n') := by
  by_cases hop : n.operator ∈ [.cast, .constantOfShape, .reshape, .concat, .gather]
  · have htypes := h.inputs.imp fun _ _ hv => hv.type
    cases ho : n.operator <;> simp only [ho, List.mem_cons, reduceCtorEq, or_false, or_true,
      List.not_mem_nil] at hop <;> simp only [ho, rule?, Option.some.injEq] at hrule <;> subst hrule
    case cast => exact .of_eq h.cast
    case constantOfShape => exact .of_eq (h.constantOfShape ho)
    case reshape => exact .of_eq (h.reading.reshape ho fun t => by rw [h.type? 1])
    case concat => exact .of_eq (h.reading.concat (sizeCounts?_congr htypes))
    case gather => exact .of_eq h.gather
  · exact h.reading.rule hrule hop

end Node.SameView

/-- Typing gives the outputs of the nodes the same types. -/
theorem Node.typedOutputs_agree {n n' : Node} (h : n.SameView n') :
    Agree (List.Forall₂ fun v w => v.type = w.type) n.typedOutputs n'.typedOutputs := by
  unfold Node.typedOutputs
  rw [← h.operator]
  split
  · refine .ok ?_
    have hin := h.inputs
    unfold keepType
    generalize n.inputs = vs, n'.inputs = ws at hin
    cases hin with
    | nil => exact h.outputs
    | cons hv _ =>
      rw [List.forall₂_map_left_iff, List.forall₂_map_right_iff]
      exact h.outputs.imp fun _ _ _ => hv.type
  · next rule hrule =>
    refine (h.rule hrule).bind fun t t' _ _ ht => ?_
    have hout := h.outputs
    generalize n.outputs = vs, n'.outputs = ws at hout
    cases hout with
    | nil => exact .error ⟨rfl, rfl⟩
    | cons _ hrest => exact .pure (.cons ht hrest)

end TensorGraph
