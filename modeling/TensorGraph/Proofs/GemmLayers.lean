import TensorGraph.Proofs.Arrays
import TensorGraph.Proofs.CoherentTypes
import TensorGraph.Proofs.LiteralTypes

/-!
# General products as layers

A general product of matrices that is neither scaled nor transposed on the left becomes a linear
layer, if its weights are known beforehand. The layer has the weights of the product, with their
axes exchanged where the product asks for it, its other operands and its result type; every other
general product stays as it is (`Node.fuseGemm_layer`).
-/

namespace TensorGraph

open Typing ValueType

lemma Position.within_reverse {dims index : List Nat} :
    Within dims.reverse index ↔ Within dims index.reverse := by
  rw [within_iff, within_iff, ← List.forall₂_reverse_iff, List.reverse_reverse]

/-- The entry at an index is the one that stood at the reverse index. -/
lemma Literal.get?_transpose (a : Literal) (index : List Nat) :
    a.transpose.get? index = a.get? index.reverse := by
  unfold get?
  change (if Position.Within a.shape.reverse index then _ else _) = _
  by_cases hwithin : Position.Within a.shape.reverse index
  · have hwithin' := Position.within_reverse.mp hwithin
    have hlt : Position.ofIndex a.shape index.reverse < a.data.length := by
      rw [a.length_data]
      exact Position.ofIndex_lt hwithin'
    rw [if_pos hwithin, if_pos hwithin']
    simp only [transpose, List.getElem?_map, List.getElem?_range (Position.ofIndex_lt hwithin),
      Position.toIndex_ofIndex hwithin, Option.map_some, get?, if_pos hwithin']
    rw [List.getElem?_eq_getElem hlt]
    rfl
  · rw [if_neg hwithin, if_neg (mt Position.within_reverse.mpr hwithin)]

section Numbers

variable {k : Int}

lemma Double.isZero_of_toInt? {x : Double} (h : x.toInt? = some k) : x.isZero = decide (k = 0) := by
  simp only [toInt?] at h
  simp only [isZero]
  cases hx : x.number with
  | nan => simp [hx] at h
  | infinite s => simp [hx] at h
  | finite s m e =>
    simp only [hx] at h
    have hvalue : (if s = true then -(m : Int) else m) = 0 ↔ m = 0 := by
      split <;> omega
    have hpos : (2 : Int) ^ (-e).toNat ≠ 0 := Int.pow_ne_zero (by decide)
    simp only [Binary.Number.isZero, decide_eq_decide]
    split at h
    · rw [← Option.some.inj h, Int.mul_eq_zero, or_iff_left (Int.pow_ne_zero (by decide)), hvalue]
    · split at h
      · next hdivides =>
        have hdvd : (2 : Int) ^ (-e).toNat ∣ if s = true then -(m : Int) else m := by
          have hm : ((2 ^ (-e).toNat : Nat) : Int) ∣ m :=
            Int.natCast_dvd_natCast.mpr (Nat.dvd_of_mod_eq_zero hdivides)
          push_cast at hm
          split
          · exact (Int.dvd_neg).mpr hm
          · exact hm
        obtain ⟨q, hq⟩ := hdvd
        rw [← Option.some.inj h, ← hvalue, hq, Int.mul_tdiv_cancel_left _ hpos, Int.mul_eq_zero,
          or_iff_right hpos]
      · cases h

/-- An element that is a number counts as set unless the number is zero. -/
lemma Scalar.isTrue_of_equals {x : Scalar} (h : x.equals k = true) :
    x.isTrue = decide (k ≠ 0) := by
  cases x with
  | bool b => cases b <;> simp_all [equals, isTrue]
  | int i => simp_all [equals, isTrue]
  | float x =>
    have hzero := Double.isZero_of_toInt? (of_decide_eq_true h)
    simp [isTrue, hzero]
  | complex re im =>
    obtain ⟨hre, him⟩ := of_decide_eq_true h
    simp [isTrue, Double.isZero_of_toInt? hre, him]
  | text s => cases h

/-- An element is one number at most. -/
lemma Scalar.equals_of_equals {x : Scalar} (h : x.equals k = true) (j : Int) :
    x.equals j = decide (k = j) := by
  cases x with
  | bool b =>
    have hk : k = if b then 1 else 0 := of_decide_eq_true h
    simp only [equals, hk, eq_comm]
  | int i => rw [of_decide_eq_true h, equals]
  | float x =>
    have hk : x.toInt? = some k := of_decide_eq_true h
    simp [equals, hk]
  | complex re im =>
    obtain ⟨hre, him⟩ := of_decide_eq_true h
    simp [equals, hre, him]
  | text s => cases h

namespace Attribute

variable {v : Attribute}

lemma exists_single? {a : Literal} (h : (array a).equals k = .ok true) :
    ∃ x, a.single? = some x ∧ x.equals k = true := by
  simp only [equals] at h
  cases hx : a.single? with
  | none => simp [hx] at h
  | some x =>
    simp only [hx, Except.ok.injEq] at h
    exact ⟨x, rfl, h⟩

/-- An attribute that is a number counts as set unless the number is zero. -/
lemma isTrue_of_equals (h : v.equals k = .ok true) : v.isTrue = .ok (decide (k ≠ 0)) := by
  cases v with
  | int i => simp_all [equals, isTrue]
  | float x =>
    have hk : x.toInt? = some k := by simpa [equals] using h
    simp [isTrue, Double.isZero_of_toInt? hk]
  | array a =>
    obtain ⟨x, hx, hk⟩ := exists_single? h
    simp only [isTrue, hx, Scalar.isTrue_of_equals hk]
  | _ => cases h

/-- An attribute is one number at most. -/
lemma equals_of_equals (h : v.equals k = .ok true) (j : Int) :
    v.equals j = .ok (decide (k = j)) := by
  cases v with
  | int i => simp_all [equals]
  | float x =>
    have hk : x.toInt? = some k := by simpa [equals] using h
    simp [equals, hk]
  | array a =>
    obtain ⟨x, hx, hk⟩ := exists_single? h
    simp only [equals, hx, Scalar.equals_of_equals hk]
  | _ => cases h

end Attribute

end Numbers

/-! ## Layers -/

/-- The value with the matrix `a` for its literal, and with the type of that matrix. -/
def Value.withMatrix (v : Value) (a : Literal) : Value :=
  { v with
    literal := some a
    type := .tensor v.type.element 2 (some (a.shape.map Size.ofNat)) }

namespace Node

/-- Whether the weights of a product stand with their axes exchanged, as its attribute `transB`
says: they do if it is one, and they do not if it is zero or missing. -/
inductive StoresTurned (n : Node) : Bool → Prop where
  | missing (h : n.attribute? "transB" = none) : n.StoresTurned false
  | zero {v : Attribute} (h : n.attribute? "transB" = some v) (hv : v.equals 0 = .ok true) :
    n.StoresTurned false
  | one {v : Attribute} (h : n.attribute? "transB" = some v) (hv : v.equals 1 = .ok true) :
    n.StoresTurned true

/-- The node multiplies `x`, which has two axes, by the matrix `a` that is known beforehand. -/
structure MultipliesBy (n : Node) (x b : Value) (a : Literal) (turned : Bool) : Prop where
  data : n.input 0 = .ok x
  dataAxes : x.type.HasAxes 2
  weights : n.input 1 = .ok b
  literal : b.literal = some a
  typed : a.type = .ok b.type
  axes : a.shape.length = 2
  stores : n.StoresTurned turned

/-- The layer `m` stands for the product `n`, whose second operand `b` is the matrix `a`. -/
structure LayerOf (m n : Node) (b : Value) (a : Literal) (turned : Bool) (weights : Literal) :
    Prop where
  /-- The second operand has the weights of the layer; no other operand is replaced. -/
  operands : m.inputs = n.inputs.set 1 (b.withMatrix weights)
  shape : weights.shape = if turned then a.shape.reverse else a.shape
  entries : ∀ i j, weights.get? [i, j] = if turned then a.get? [j, i] else a.get? [i, j]
  types : ∃ vs, n.typedOutputs = .ok vs ∧ m.typedOutputs = .ok vs

variable {n m : Node} {x b : Value} {a : Literal} {turned : Bool}

lemma StoresTurned.storesTransposed (h : n.StoresTurned turned) :
    n.storesTransposed = .ok turned := by
  cases h with
  | missing h => simp [Node.storesTransposed, h]
  | zero h hv => simpa [Node.storesTransposed, h] using Attribute.equals_of_equals hv 1
  | one h hv => simp [Node.storesTransposed, h, hv]

lemma StoresTurned.flag (h : n.StoresTurned turned) : n.flag "transB" false = .ok turned := by
  cases h with
  | missing h => simp [Node.flag, h]
  | zero h hv => simpa [Node.flag, h] using Attribute.isTrue_of_equals hv
  | one h hv => simpa [Node.flag, h] using Attribute.isTrue_of_equals hv

/-- What is the number zero, or missing, does not count as set. -/
lemma flag_of_isNumber {key : String} (h : n.isNumber key 0 = .ok true) :
    n.flag key false = .ok false := by
  cases hkey : n.attribute? key with
  | none => simp only [Node.flag, hkey]
  | some v =>
    simp only [isNumber, hkey] at h
    simp only [Node.flag, hkey]
    exact Attribute.isTrue_of_equals h

/-- A product that becomes a layer has one output and is not transposed on the left, and nothing but
its operator, its attributes and its second operand is replaced. -/
lemma fuseGemm_cases (h : n.fuseGemm = .ok m) : m = n ∨ n.isNumber "transA" 0 = .ok true ∧
    ∃ turned attributes, n.outputs.length = 1 ∧ n.storesTransposed = .ok turned ∧ m = { n with
      operator := .linear
      inputs := if turned then n.inputs.modify 1 Value.transpose else n.inputs
      attributes } := by
  unfold fuseGemm at h
  split at h
  · exact .inl (Except.pure_eq_ok.mp h).symm
  next hone =>
  obtain ⟨plain, hplain, h⟩ := Except.bind_eq_ok.mp h
  split at h
  · exact .inl (Except.pure_eq_ok.mp h).symm
  next htrue =>
  split at h
  · exact .inl (Except.pure_eq_ok.mp h).symm
  obtain ⟨turned, hturned, h⟩ := Except.bind_eq_ok.mp h
  refine .inr ⟨?_, turned, _, not_not.mp hone, hturned, (Except.pure_eq_ok.mp h).symm⟩
  have hplain : n.isPlainProduct = .ok true := by simpa [hplain] using htrue
  unfold isPlainProduct at hplain
  obtain ⟨alpha, -, hplain⟩ := Except.bind_eq_ok.mp hplain
  split at hplain
  · cases hplain
  obtain ⟨beta, -, hplain⟩ := Except.bind_eq_ok.mp hplain
  split at hplain
  · cases hplain
  exact hplain

end Node

section Types

variable {n m : Node} {x b w : Value} {a : Literal} {e : ElementType} {turned : Bool}
  {rows columns : Nat} {t : ValueType}

/-- The rows of the data operand, with as many entries as given. -/
def rowsOf (x : Value) (columns : Nat) : ValueType :=
  .ofRank x.type.element 2 (x.type.dims?.map fun ds => ds.take 1 ++ [.ofNat columns])

lemma gemm_eq_rowsOf (hx : n.input 0 = .ok x) (hr : x.type.HasAxes 2) (hb : n.input 1 = .ok b)
    (hdims : b.type.dims? = some [.ofNat rows, .ofNat columns])
    (hleft : n.flag "transA" false = .ok false) (hright : n.flag "transB" false = .ok turned) :
    gemm n = .ok (rowsOf x (if turned then rows else columns)) := by
  cases hds : x.type.dims? with
  | none =>
    simp only [gemm, hx, hb, hds, Except.ok_bind, rowsOf]
    rfl
  | some ds =>
    obtain ⟨p, q, rfl⟩ := List.length_eq_two.mp (hr.length ds hds)
    simp only [gemm, hx, hb, hds, hdims, hleft, hright, Except.ok_bind, rowsOf]
    cases turned <;> rfl

lemma linear_eq_rowsOf (hx : n.input 0 = .ok x) (hr : x.type.HasAxes 2) (hw : n.input 1 = .ok w)
    (htype : w.type = .tensor e 2 (some [.ofNat rows, .ofNat columns])) :
    linear n = .ok (rowsOf x columns) := by
  have htwo : w.type.rank.equals 2 = true := by
    rw [htype]
    rfl
  have hdims : w.type.dims? = some [.ofNat rows, .ofNat columns] := by
    rw [htype]
    rfl
  cases hds : x.type.dims? with
  | none =>
    simp only [linear, hx, hw, htwo, hr.rank, hds, Except.ok_bind, rowsOf]
    rfl
  | some ds =>
    obtain ⟨p, q, rfl⟩ := List.length_eq_two.mp (hr.length ds hds)
    simp only [linear, hx, hw, htwo, hr.rank, hds, hdims, Except.ok_bind, rowsOf]
    rfl

end Types

section Matrices

variable {b : Value} {a : Literal}

lemma Value.withMatrix_self (hliteral : b.literal = some a) (htyped : a.type = .ok b.type)
    (haxes : a.shape.length = 2) : b.withMatrix a = b := by
  obtain ⟨e, -, htype⟩ := Literal.type_eq_ok.mp htyped
  have hne : a.shape ≠ [] := List.ne_nil_of_length_eq_add_one haxes
  rw [if_neg hne, haxes] at htype
  have hsame : tensor b.type.element 2 (some (a.shape.map Size.ofNat)) = b.type := by
    rw [htype]
    rfl
  simp only [withMatrix, ← hliteral, hsame]

lemma Value.transpose_eq_withMatrix (hliteral : b.literal = some a) (haxes : a.shape.length = 2) :
    b.transpose = b.withMatrix a.transpose := by
  have hne : a.shape ≠ [] := List.ne_nil_of_length_eq_add_one haxes
  simp only [transpose, hliteral, if_neg hne, withMatrix]

end Matrices

namespace Node

variable {n m : Node} {x b : Value} {a : Literal} {turned : Bool}

/-- Turned or not, the weights of the layer stand where those of the product stand. -/
lemma MultipliesBy.layer_inputs (h : n.MultipliesBy x b a turned) :
    (if turned then n.inputs.modify 1 Value.transpose else n.inputs) =
      n.inputs.set 1 (b.withMatrix (if turned then a.transpose else a)) := by
  have hsecond : n.inputs[1]? = some b := input_eq_ok.mp h.weights
  cases turned with
  | true =>
    change n.inputs.modify 1 Value.transpose = n.inputs.set 1 (b.withMatrix a.transpose)
    rw [List.modify_eq_set_getElem?, hsecond, ← Value.transpose_eq_withMatrix h.literal h.axes]
    rfl
  | false =>
    obtain ⟨_, hget⟩ := List.getElem?_eq_some_iff.mp hsecond
    change n.inputs = n.inputs.set 1 (b.withMatrix a)
    rw [Value.withMatrix_self h.literal h.typed h.axes, ← hget, List.set_getElem_self]

lemma MultipliesBy.gemm_eq {rows columns : Nat} (h : n.MultipliesBy x b a turned)
    (hshape : a.shape = [rows, columns]) (hleft : n.isNumber "transA" 0 = .ok true) :
    gemm n = .ok (rowsOf x (if turned then rows else columns)) := by
  obtain ⟨e, -, htype⟩ := Literal.type_eq_ok.mp h.typed
  rw [hshape, if_neg (by simp)] at htype
  refine gemm_eq_rowsOf h.data h.dataAxes h.weights ?_ (flag_of_isNumber hleft) h.stores.flag
  rw [htype]
  rfl

/-- The layer reads the rows off the same operand, and their lengths off its weights. -/
lemma MultipliesBy.linear_eq {rows columns : Nat} (h : n.MultipliesBy x b a turned)
    (hshape : a.shape = [rows, columns])
    (hin : m.inputs = n.inputs.set 1 (b.withMatrix (if turned then a.transpose else a))) :
    linear m = .ok (rowsOf x (if turned then rows else columns)) := by
  have hdata : m.input 0 = .ok x := by
    rw [input_eq_ok, hin, List.getElem?_set_ne (by decide)]
    exact input_eq_ok.mp h.data
  have hweights : m.input 1 = .ok (b.withMatrix (if turned then a.transpose else a)) := by
    have hlt := (List.getElem?_eq_some_iff.mp (input_eq_ok.mp h.weights)).1
    rw [input_eq_ok, hin, List.getElem?_set_self hlt]
  have htype : (b.withMatrix (if turned then a.transpose else a)).type =
      .tensor b.type.element 2 (some [.ofNat (if turned then columns else rows),
        .ofNat (if turned then rows else columns)]) := by
    cases turned <;> simp [Value.withMatrix, Literal.transpose, hshape]
  exact linear_eq_rowsOf hdata h.dataAxes hweights htype

/-- A product that has become a layer has the weights that it asks for and its result type. -/
lemma MultipliesBy.layerOf {attributes : Attributes} (h : n.MultipliesBy x b a turned)
    (hop : n.operator = .gemm) (hone : n.outputs.length = 1)
    (hleft : n.isNumber "transA" 0 = .ok true) (hm : m = { n with
      operator := .linear
      inputs := if turned then n.inputs.modify 1 Value.transpose else n.inputs
      attributes }) : m.LayerOf n b a turned (if turned then a.transpose else a) := by
  obtain ⟨rows, columns, hshape⟩ := List.length_eq_two.mp h.axes
  obtain ⟨v, hv⟩ := List.length_eq_one_iff.mp hone
  have hoperands : m.inputs =
      n.inputs.set 1 (b.withMatrix (if turned then a.transpose else a)) := by
    rw [hm]
    exact h.layer_inputs
  have hproduct := h.gemm_eq hshape hleft
  have hlayer := h.linear_eq hshape hoperands
  have hlinear : m.operator = .linear := by rw [hm]
  have houtputs : m.outputs = [v] := by
    rw [hm]
    exact hv
  refine ⟨hoperands, ?_, ?_,
    [{ v with type := rowsOf x (if turned then rows else columns) }], ?_, ?_⟩
  · cases turned <;> rfl
  · intro i j
    cases turned
    · rfl
    · exact a.get?_transpose [i, j]
  · simp only [typedOutputs, hop, rule?, hproduct, hv, Except.ok_bind]
    rfl
  · simp only [typedOutputs, hlinear, rule?, hlayer, houtputs, Except.ok_bind]
    rfl

/-- A general product either stays as it is or becomes a layer. The layer has the entries of the
matrix for its weights, with the axes exchanged if the product stores them so, and otherwise the
operands of the product, and it is typed as the product is. -/
theorem fuseGemm_layer (hop : n.operator = .gemm) (hfuse : n.fuseGemm = .ok m) :
    (m.operator ≠ .linear → m = n) ∧
      (m.operator = .linear → n.MultipliesBy x b a turned →
        ∃ weights, m.LayerOf n b a turned weights) := by
  rcases fuseGemm_cases hfuse with rfl | ⟨hleft, turned', attributes, hone, hstores, hm⟩
  · exact ⟨fun _ => rfl, fun hlinear => by simp [hop] at hlinear⟩
  · refine ⟨fun hlinear => absurd (by rw [hm]) hlinear, fun _ h => ?_⟩
    obtain rfl : turned = turned' := Except.ok.inj (h.stores.storesTransposed.symm.trans hstores)
    exact ⟨_, h.layerOf hop hone hleft hm⟩

end Node

/-- A matrix of two rows. -/
def sixNumbers : Literal where
  layout := .signed 64
  shape := [2, 3]
  data := [.int 1, .int 2, .int 3, .int 4, .int 5, .int 6]
  length_data := rfl

def sixWeights : Value where
  name := "w"
  type := .tensor .int64 2 (some [2, 3])
  literal := some sixNumbers

def fourRows : Value := { name := "x", type := .tensor .int64 2 (some [4, 3]) }

/-- A product whose weights are stored with their axes exchanged. -/
def turnedWeights : Node where
  operator := .gemm
  name := ""
  inputs := [fourRows, sixWeights]
  outputs := [{ name := "y" }]
  attributes := Table.insert ∅ "transB" (.int 1)

lemma multipliesBy_turnedWeights :
    turnedWeights.MultipliesBy fourRows sixWeights sixNumbers true where
  data := rfl
  dataAxes := ⟨rfl, fun _ hds => Option.some.inj hds ▸ rfl⟩
  weights := rfl
  literal := rfl
  typed := rfl
  axes := rfl
  stores := .one (v := .int 1) (by decide) rfl

theorem Node.fuseGemm_layer_turnedWeights : ∃ m, turnedWeights.fuseGemm = .ok m ∧
    m.operator = .linear ∧
      ∃ weights, m.LayerOf turnedWeights sixWeights sixNumbers true weights := by
  obtain ⟨m, hm, hlinear⟩ : ∃ m, turnedWeights.fuseGemm = .ok m ∧ m.operator = .linear :=
    Except.exists_ok (by decide +kernel)
  exact ⟨m, hm, hlinear, (Node.fuseGemm_layer rfl hm).2 hlinear multipliesBy_turnedWeights⟩

example : sixNumbers.transpose.data = [.int 1, .int 4, .int 2, .int 5, .int 3, .int 6] := by decide

end TensorGraph
