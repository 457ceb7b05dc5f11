import TensorGraph.Proofs.Contradictions

/-!
# Defects of nodes

What nothing checks before a node is typed. A node is malformed if it has fewer operands than its
operator takes unasked, or no outputs, or if an attribute or the type of an operand is of a kind that
its operator cannot use. It has a defect if it is malformed, or if an index of its rule reaches past a
list, or a division is by zero. From a node without one, every operand, attribute, axis and step that
its rule takes unasked is there to take.
-/

namespace TensorGraph

open Typing ValueType Onnx

/-- Integers in signed words, of which a list holds fewer than fill memory that is addressed by signed
words: each entry takes eight places. -/
structure Size.Listable (is : List Int) : Prop where
  count : is.length < 2 ^ 60
  words : ∀ i ∈ is, Size.isSigned i = true

/-- The sizes of the type are integers that can be listed, or its rank alone is known and fits a signed
word. -/
inductive ValueType.Proper (t : ValueType) : Prop where
  | sized {ds : List Int} (hsizes : t.Sized ds) (hlist : Size.Listable ds)
  | ranked {r : Nat} (hrank : t.rank = .ofNat r) (hcount : r < 2 ^ 63)
    (hdims : t.dims? = none)

/-- What operators ask of an attribute. -/
inductive Attribute.Kind where
  | integer
  | integers
  /-- Numbers, or an array of any elements. -/
  | textless
  /-- Anything but an array. -/
  | plain
  /-- A list or a text. -/
  | plainList
deriving DecidableEq

/-- The attribute is of a kind. -/
def Attribute.IsOf (v : Attribute) : Attribute.Kind → Prop
  | .integer => ∃ i, v = .int i ∧ Size.isSigned i = true
  | .integers => ∃ is, v = .ints is ∧ Size.Listable is
  | .textless => (∀ s, v ≠ .string s) ∧ (∀ ss, v ≠ .strings ss) ∧ ∀ bs, v ≠ .bytes bs
  | .plain => ∀ a, v ≠ .array a
  | .plainList => (∀ a, v ≠ .array a) ∧ ∃ vs, v.items = .ok vs

namespace Operator

/-- How many operands the operator takes unasked. -/
def required : Operator → Nat
  | .gather | .linear | .gemm | .convTranspose | .convTranspose1d | .convTranspose2d
  | .convTranspose3d => 2
  | .identity | .constantOfShape | .flatten | .unsqueeze | .squeeze | .globalAveragePool
  | .globalMaxPool | .maxPool | .maxPool1d | .maxPool2d | .averagePool | .averagePool1d
  | .averagePool2d | .reduceMax | .reduceMean | .reduceMin | .reduceProd | .reduceSum | .argMax => 1
  | _ => 0

/-- The attributes of the operator that are used unasked. -/
def signature : Operator → List (String × Attribute.Kind)
  | .constant => [("value_float", .textless), ("value_floats", .textless), ("value_int", .integer),
      ("value_ints", .integers)]
  | .shape => [("start", .integer), ("end", .integer)]
  | .reshape => [("shape", .integers), ("allowzero", .plain)]
  | .unsqueeze | .squeeze => [("axes", .integers)]
  | .flatten | .concat | .gather => [("axis", .integer)]
  | .transpose => [("perm", .integers)]
  | .argMax => [("axis", .integer), ("keepdims", .plain)]
  | .reduceMax | .reduceMean | .reduceMin | .reduceProd | .reduceSum =>
    [("axes", .integers), ("keepdims", .plain)]
  | .gemm => [("alpha", .plain), ("beta", .plain), ("transA", .plain), ("transB", .plain)]
  | .conv => [("kernel_shape", .plainList), ("auto_pad", .plain), ("group", .integer)]
  | .conv1d | .conv2d | .conv3d => [("auto_pad", .plain), ("group", .integer)]
  | .convTranspose => [("kernel_shape", .plainList), ("group", .integer)]
  | .convTranspose1d | .convTranspose2d | .convTranspose3d => [("group", .integer)]
  | .maxPool | .averagePool => [("kernel_shape", .plainList), ("auto_pad", .plain)]
  | .maxPool1d | .maxPool2d | .averagePool1d | .averagePool2d => [("auto_pad", .plain)]
  | _ => []

/-- The attributes of a transposed convolution that give a number for each spatial axis, with what
stands for one that is not given. -/
def scatterLists : List (String × Int) := [("strides", 1), ("dilations", 1), ("output_padding", 0)]

end Operator

/-- The node spreads `x`, which has sizes `ds`, over as many spatial axes as given, with the weights
`w`, which have sizes `ws`. -/
structure Node.Scatters (n : Node) (x w : Value) (ds ws : List Int) (axes : Nat) : Prop where
  operator : n.operator ∈ Operator.transposedConvolutions
  data : n.input 0 = .ok x
  weights : n.input 1 = .ok w
  dataSizes : x.type.Sized ds
  weightSizes : w.type.Sized ws
  count : n.operator.spatialAxes?.getD (ds.length - 2) = axes

/-- The node lacks what its operator uses unasked. -/
inductive Node.Malformed (n : Node) : Prop where
  | operands (h : n.inputs.length < n.operator.required)
  | outputs (h : n.outputs = [])
  | attributeKind {key : String} {kind : Attribute.Kind} {v : Attribute}
    (hkey : (key, kind) ∈ n.operator.signature) (hv : n.attribute? key = some v)
    (hkind : ¬ v.IsOf kind)
  /-- An operand has sizes that cannot be listed, or not as many as axes. -/
  | operandType {v : Value} (hrule : (rule? n.operator).isSome) (hv : v ∈ n.inputs)
    (htype : ¬ v.type.Proper)

/-- The node has a defect that nothing checks before it is typed. -/
inductive Node.Defective (n : Node) : Prop where
  | malformed (h : n.Malformed)
  /-- A literal operand that is consulted holds no integers that can be listed. -/
  | literal {place : Nat} {a : Literal} (hplace : place ∈ n.operator.consulted)
    (ha : n.literal? place = some a) (hints : ∀ is, a.toInts = .ok is → ¬ Size.Listable is)
  /-- The type that a conversion is to has neither an element type nor a name. -/
  | target {code : Int} (hop : n.operator = .cast) (hto : n.attribute? "to" = some (.int code))
    (htype : DataType.element? code = none) (hname : DataType.shownName? code = none)
  /-- An operand of a product of matrices has no such axis. -/
  | product {v w : Value} {ds es : List Int} {turned turned' : Bool} (hop : n.operator = .gemm)
    (hv : n.input 0 = .ok v) (hw : n.input 1 = .ok w) (hds : v.type.Sized ds)
    (hes : w.type.Sized es) (hturned : n.flag "transA" false = .ok turned)
    (hturned' : n.flag "transB" false = .ok turned')
    (hshort : ds.length ≤ (if turned then 1 else 0) ∨ es.length ≤ if turned' then 0 else 1)
  /-- The channels are to fall into no groups. -/
  | groups (hop : n.operator ∈ Operator.convolutions) (hgroup : n.attribute? "group" = some (.int 0))
  /-- The operand of a convolution over any number of axes has no axis of channels, or the weights
  have no axes. -/
  | channels {x w : Value} {ds ws : List Int} (hconv : n.Convolves x w ds ws)
    (hshort : n.operator = .conv ∧ ds.length < 2 ∨ ws = [])
  /-- A window has sizes for more axes than there are. -/
  | window {x : Value} {ds : List Int} {axes : Nat} (hslides : n.Slides x axes)
    (hds : x.type.Sized ds) (hcovers : coversAxes n = .ok false) (hlong : ds.length < axes)
  /-- A window has strides or dilations for fewer axes than sizes. -/
  | steps {x : Value} {axes : Nat} {key : String} {counts : List Int} (hslides : n.Slides x axes)
    (hcovers : coversAxes n = .ok false) (hkey : key ∈ ["strides", "dilations"])
    (hcounts : n.intList key (List.replicate axes 1) = .ok counts) (hshort : counts.length < axes)
  /-- A window does not move along an axis. -/
  | stride {x : Value} {axes : Nat} {strides : List Int} (hslides : n.Slides x axes)
    (hstrides : n.intList "strides" (List.replicate axes 1) = .ok strides) (hzero : 0 ∈ strides)
  /-- The operands of a transposed convolution have too few axes. -/
  | scattered {x w : Value} {ds ws : List Int} {axes : Nat} (hscatters : n.Scatters x w ds ws axes)
    (hshort : ds = [] ∨ 0 < axes ∧ ds.length < axes + 2 ∨ ws.length < 2)
  /-- So do its window, its strides, its dilations or the padding of its result. -/
  | scatteredWindow {x w : Value} {ds ws : List Int} {axes : Nat} {kernel : List Size}
    (hscatters : n.Scatters x w ds ws axes)
    (hkernel : kernelSizes n ((ws.map .whole).drop 2) = .ok kernel) (hshort : kernel.length < axes)
  | scatteredSteps {x w : Value} {ds ws : List Int} {axes : Nat} {key : String} {default : Int}
    {counts : List Int} (hscatters : n.Scatters x w ds ws axes)
    (hkey : (key, default) ∈ Operator.scatterLists)
    (hcounts : n.intList key (List.replicate axes default) = .ok counts)
    (hshort : counts.length < axes)

namespace Error

@[simp] lemma coded_typing (e : TypingError) : (typing e).Coded := rfl

@[simp] lemma coded_naming (e : NamingError) : (naming e).Coded := rfl

@[simp] lemma coded_structural (e : StructureError) : (structural e).Coded := rfl

@[simp] lemma coded_unsupportedLayout (layout : String) : (unsupportedLayout layout).Coded := rfl

@[simp] lemma coded_unsupportedElement (name : String) : (unsupportedElement name).Coded := rfl

@[simp] lemma coded_unsupportedOperator (name : String) : (unsupportedOperator name).Coded := rfl

lemma IsTyping.coded {e : Error} (h : e.IsTyping) : e.Coded := by
  obtain ⟨f, rfl⟩ := h
  rfl

end Error

lemma FailsOnly.imp {α : Type} {P Q : Error → Prop} {x : Except Error α} (h : FailsOnly P x)
    (hPQ : ∀ e, P e → Q e) : FailsOnly Q x := fun e he => hPQ e (h e he)

variable {n : Node} {v w x : Value} {t u : ValueType} {vs : List Value} {ds es is : List Int}
  {r q : Nat} {key : String} {kind : Attribute.Kind} {a : Attribute}

@[simp] lemma Layout.coded_element (l : Layout) : FailsOnly Error.Coded l.element := by
  unfold Layout.element
  split <;> simp

@[simp] lemma ElementType.coded_promote (a b : ElementType) :
    FailsOnly Error.Coded (a.promote b) := by
  simp [promote]

@[simp] lemma Literal.coded_type (a : Literal) : FailsOnly Error.Coded a.type := by simp [type]

@[simp] lemma Value.coded_ofLiteral (name : String) (a : Literal) :
    FailsOnly Error.Coded (Value.ofLiteral name a) := by
  simp [Value.ofLiteral]

@[simp] lemma Node.coded_intList (key : String) (default : List Int) :
    FailsOnly Error.Coded (n.intList key default) := by
  unfold intList
  repeat' split
  all_goals simp

namespace Size

lemma count_whole {i : Int} (h : i < 2 ^ 63) : (whole i).count = .ok i.toNat := by
  simp only [count, index, Except.ok_bind, if_neg (Int.not_le.mpr h)]
  rfl

lemma Listable.length_lt {is : List Int} (h : Listable is) : is.length < 2 ^ 63 :=
  Nat.lt_trans h.count (by decide)

lemma countBeside_whole {i : Int} (h : i < 2 ^ 63) (held : Nat) :
    (whole i).countBeside held = .ok i.toNat := by
  simp only [countBeside, index, Except.ok_bind, count_whole h]
  split <;> rfl

lemma exists_sum (ds : List Int) : ∃ k : Int, sum (ds.map whole) = .ok (whole k) := by
  have hfold : ∀ b : Int, ∃ k : Int, (ds.map whole).foldlM add (whole b) = .ok (whole k) := by
    induction ds with
    | nil => exact fun b => ⟨b, rfl⟩
    | cons d ds ih =>
      intro b
      rw [List.map_cons, List.foldlM_cons, add_whole, Except.ok_bind]
      exact ih (b + d)
  exact hfold 0

lemma isWord_of_isSigned {i : Int} (h : isSigned i = true) : isWord i = true := by
  simp only [isSigned, isWord, decide_eq_true_eq] at h ⊢
  omega

/-- Sizes in signed words have a product. -/
lemma product_of_signed (h : ∀ d ∈ ds, isSigned d = true) :
    product (ds.map whole) = .ok (wrappedProduct ds) := by
  have hword : ¬ ∃ d ∈ ds, isWord d = false := by
    rintro ⟨d, hd, hfalse⟩
    simp [isWord_of_isSigned (h d hd)] at hfalse
  simp [product, hword, if_pos h, pure, Except.pure]

end Size

lemma Place.exists_get {α : Type} (xs : List α) (i : Int) (h : -xs.length ≤ i ∧ i < xs.length) :
    ∃ a ∈ xs, Place.get xs i = .ok a := by
  simp only [Place.get]
  generalize hk : (if i < 0 then i + xs.length else i) = k
  have hrange : 0 ≤ k ∧ k < xs.length := by
    split at hk <;> omega
  have hlt : k.toNat < xs.length := by omega
  refine ⟨xs[k.toNat], List.getElem_mem hlt, ?_⟩
  rw [if_neg (by omega), List.getElem?_eq_getElem hlt]

lemma Place.exists_size (ds : List Int) (i : Int) (h : -ds.length ≤ i ∧ i < ds.length) :
    ∃ d : Int, Place.get (ds.map Size.whole) i = .ok (.whole d) := by
  obtain ⟨s, hs, hget⟩ := Place.exists_get (ds.map Size.whole) i (by simpa using h)
  obtain ⟨d, -, rfl⟩ := List.mem_map.mp hs
  exact ⟨d, hget⟩

lemma ValueType.Proper.exists_axes (h : t.Proper) : ∃ r < 2 ^ 63, t.HasAxes r := by
  cases h with
  | @sized ds hsizes hlist =>
    refine ⟨ds.length, hlist.length_lt, hsizes.rank, fun es hes => ?_⟩
    rw [hsizes.dims] at hes
    rw [← Option.some.inj hes, List.length_map]
  | ranked hrank hcount hdims => exact ⟨_, hcount, hrank, by simp [hdims]⟩

lemma ValueType.Proper.exists_sizes {sizes : List Size} (h : t.Proper)
    (hdims : t.dims? = some sizes) : ∃ ds, sizes = ds.map .whole ∧ t.Sized ds ∧ Size.Listable ds := by
  cases h with
  | @sized ds hsizes hlist =>
    exact ⟨ds, Option.some.inj (hdims.symm.trans hsizes.dims), hsizes, hlist⟩
  | ranked _ _ hnone => simp [hdims] at hnone

/-! ## What a node without a defect has -/

namespace Attribute

lemma IsOf.exists_isTrue (h : IsOf a .plain) : ∃ b, a.isTrue = .ok b := by
  cases a with
  | array a => exact absurd rfl (h a)
  | _ => exact ⟨_, rfl⟩

lemma IsOf.exists_equals (h : IsOf a .plain) (i : Int) : ∃ b, a.equals i = .ok b := by
  cases a with
  | array a => exact absurd rfl (h a)
  | _ => exact ⟨_, rfl⟩

lemma IsOf.exists_isText (h : IsOf a .plain) (s : String) : ∃ b, a.isText s = .ok b := by
  cases a with
  | array a => exact absurd rfl (h a)
  | _ => exact ⟨_, rfl⟩

lemma IsOf.toInts (h : IsOf a .integers) : ∃ is, a = .ints is ∧ Size.Listable is ∧
    a.toInts = .ok is := by
  obtain ⟨is, rfl, his⟩ := h
  have hread : (is.map Attribute.int).mapM Attribute.toInt = .ok is := by
    clear his
    induction is with
    | nil => rfl
    | cons i is ih =>
      rw [List.map_cons, List.mapM_cons, ih]
      rfl
  exact ⟨is, rfl, his, hread⟩

end Attribute

namespace Node

lemma exists_input_of_lt {i : Nat} (hi : i < n.inputs.length) :
    ∃ v ∈ n.inputs, n.input i = .ok v :=
  ⟨n.inputs[i], List.getElem_mem hi, input_eq_ok.mpr (List.getElem?_eq_getElem hi)⟩

section WellFormed

variable (hn : ¬ n.Malformed)

include hn

lemma exists_input {i : Nat} (hi : i < n.operator.required) : ∃ v ∈ n.inputs, n.input i = .ok v := by
  have hlength : ¬ n.inputs.length < n.operator.required := fun h => hn (.operands h)
  exact exists_input_of_lt (by omega)

lemma exists_outputs : ∃ y ys, n.outputs = y :: ys := by
  cases h : n.outputs with
  | nil => exact absurd (.outputs h) hn
  | cons y ys => exact ⟨y, ys, rfl⟩

lemma attribute_isOf (kind : Attribute.Kind) (hkey : (key, kind) ∈ n.operator.signature)
    (ha : n.attribute? key = some a) : a.IsOf kind := by
  by_contra hkind
  exact hn (.attributeKind hkey ha hkind)

lemma proper_of_mem (hrule : (rule? n.operator).isSome) (hv : v ∈ n.inputs) : v.type.Proper := by
  by_contra htype
  exact hn (.operandType hrule hv htype)

lemma exists_quantity (key : String) (hkey : (key, .integer) ∈ n.operator.signature) (d : Int) :
    ∃ i : Int, n.quantity key (.whole d) = .ok (.number (.whole i)) := by
  unfold quantity
  cases ha : n.attribute? key with
  | none => exact ⟨d, rfl⟩
  | some a =>
    obtain ⟨i, rfl, -⟩ := attribute_isOf hn .integer hkey ha
    exact ⟨i, rfl⟩

lemma exists_flag (key : String) (hkey : (key, .plain) ∈ n.operator.signature) (default : Bool) :
    ∃ b, n.flag key default = .ok b := by
  unfold flag
  cases ha : n.attribute? key with
  | none => exact ⟨default, rfl⟩
  | some a => exact (attribute_isOf hn .plain hkey ha).exists_isTrue

lemma exists_coversAxes (hkey : ("auto_pad", .plain) ∈ n.operator.signature) :
    ∃ b, coversAxes n = .ok b := by
  unfold coversAxes
  cases ha : n.attribute? "auto_pad" with
  | none => exact ⟨false, rfl⟩
  | some a =>
    have hplain := attribute_isOf hn .plain hkey ha
    obtain ⟨upper, hupper⟩ := hplain.exists_isText "SAME_UPPER"
    obtain ⟨lower, hlower⟩ := hplain.exists_isText "SAME_LOWER"
    cases upper with
    | true => exact ⟨true, by simp [hupper, bind, Except.bind, pure, Except.pure]⟩
    | false => exact ⟨lower, by simp [hupper, hlower, bind, Except.bind]⟩

end WellFormed

section Sound

variable (hn : ¬ n.Defective)

include hn

lemma integers?_cases (place : Nat) (key : String) (hplace : place ∈ n.operator.consulted)
    (hkey : (key, .integers) ∈ n.operator.signature) : n.integers? place key = .ok none ∨
      ∃ is, Size.Listable is ∧ n.integers? place key = .ok (some is) := by
  unfold integers?
  split
  · next a ha =>
    have hints : ∃ is, a.toInts = .ok is ∧ Size.Listable is := by
      by_contra hnone
      exact hn (.literal hplace ha fun is his hlist => hnone ⟨is, his, hlist⟩)
    obtain ⟨is, his, hlist⟩ := hints
    exact .inr ⟨is, hlist, by rw [his]; rfl⟩
  · split
    · next a ha =>
      obtain ⟨is, -, hlist, his⟩ := (attribute_isOf (mt .malformed hn) .integers hkey ha).toInts
      exact .inr ⟨is, hlist, by rw [his]; rfl⟩
    · exact .inl rfl

/-- A window has a stride and a dilation for each of its sizes. -/
lemma exists_steps {x : Value} {axes : Nat} (hslides : n.Slides x axes)
    (hcovers : coversAxes n = .ok false) (hkey : key ∈ ["strides", "dilations"])
    (his : n.intList key (List.replicate axes 1) = .ok is) {i : Nat} (hi : i < axes) :
    ∃ k ∈ is, Place.get is i = .ok k := by
  have hlength : ¬ is.length < axes := fun h => hn (.steps hslides hcovers hkey his h)
  exact Place.exists_get is i (by omega)

end Sound

end Node

end TensorGraph
