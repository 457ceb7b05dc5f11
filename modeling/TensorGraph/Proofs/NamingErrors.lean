import TensorGraph.Onnx.Value
import TensorGraph.Proofs.Checked
import TensorGraph.Typing

/-!
# Computations that no name can fail

Typing a node may fail in many ways, but never because of a name (`Node.avoids_infer`), and neither does
the reading of arrays, of declarations and of attributes (`Onnx.TensorMessage.avoids_toValue`,
`Onnx.NodeMessage.avoids_toAttributes`).
-/

namespace TensorGraph

open Onnx

/-- The computation fails with no naming error of which `P` holds. -/
def Avoids {α : Type} (P : NamingError → Prop) (x : Except Error α) : Prop :=
  ∀ e, P e → x ≠ .error (.naming e)

section Computations

variable {α β : Type} {P : NamingError → Prop} {x : Except Error α}

@[simp] lemma avoids_ok (a : α) : Avoids P (.ok a) := by simp [Avoids]

@[simp] lemma avoids_pure (a : α) : Avoids P (pure a) := avoids_ok a

@[simp] lemma avoids_naming {e : NamingError} :
    Avoids P (.error (.naming e) : Except Error α) ↔ ¬ P e := by
  simp only [Avoids, ne_eq, Except.error.injEq, Error.naming.injEq]
  exact ⟨fun h he => h e he rfl, fun h e' he' hee => h (hee ▸ he')⟩

@[simp] lemma avoids_typing (e : TypingError) : Avoids P (.error (.typing e) : Except Error α) := by
  simp [Avoids]

@[simp] lemma avoids_structural (e : StructureError) :
    Avoids P (.error (.structural e) : Except Error α) := by
  simp [Avoids]

@[simp] lemma avoids_fault (f : Fault) : Avoids P (.error (.fault f) : Except Error α) := by
  simp [Avoids]

@[simp] lemma avoids_throw {e : Error} :
    Avoids P (throw e : Except Error α) ↔ Avoids P (.error e : Except Error α) := Iff.rfl

@[simp] lemma avoids_bind {f : α → Except Error β} :
    Avoids P (x >>= f) ↔ Avoids P x ∧ ∀ a, x = .ok a → Avoids P (f a) := by
  cases x <;> simp [Avoids, Bind.bind, Except.bind]

@[simp] lemma avoids_map {f : α → β} : Avoids P (x.map f) ↔ Avoids P x := by
  cases x <;> simp [Avoids, Except.map]

@[simp] lemma avoids_functor_map {f : α → β} : Avoids P (f <$> x) ↔ Avoids P x := avoids_map

@[simp] lemma avoids_ite {c : Prop} [Decidable c] {y : Except Error α} :
    Avoids P (if c then x else y) ↔ (c → Avoids P x) ∧ (¬ c → Avoids P y) := by
  split <;> simp_all

@[simp] lemma avoids_mapM {f : α → Except Error β} {as : List α} (h : ∀ a, Avoids P (f a)) :
    Avoids P (as.mapM f) := by
  induction as with
  | nil => simp
  | cons a as ih => simp [List.mapM_cons, h, ih]

@[simp] lemma avoids_foldlM {f : β → α → Except Error β} {as : List α} {b : β}
    (h : ∀ b a, Avoids P (f b a)) : Avoids P (as.foldlM f b) := by
  induction as generalizing b with
  | nil => simp
  | cons a as ih => simp [List.foldlM_cons, h, ih]

end Computations

variable {P : NamingError → Prop}

@[simp] lemma Layout.avoids_element (l : Layout) : Avoids P l.element := by
  unfold Layout.element
  split <;> simp [Avoids]

@[simp] lemma ElementType.avoids_promote (a b : ElementType) : Avoids P (a.promote b) := by
  simp [promote]

@[simp] lemma Scalar.avoids_toInt (x : Scalar) : Avoids P x.toInt := by
  unfold Scalar.toInt
  repeat' split
  all_goals simp

@[simp] lemma Scalar.avoids_toSingle (x : Scalar) : Avoids P x.toSingle := by
  unfold Scalar.toSingle
  repeat' split
  all_goals simp

@[simp] lemma Scalar.avoids_toWide (x : Scalar) : Avoids P x.toWide := by simp [Scalar.toWide]

namespace Literal

@[simp] lemma avoids_toInts (a : Literal) : Avoids P a.toInts := by simp [toInts]

@[simp] lemma avoids_type (a : Literal) : Avoids P a.type := by simp [type]

@[simp] lemma avoids_ofDims (layout : Layout) (data : List Scalar) (dims : List Int) :
    Avoids P (ofDims layout data dims) := by
  unfold ofDims
  split <;> simp

end Literal

@[simp] lemma Value.avoids_ofLiteral (name : String) (a : Literal) :
    Avoids P (Value.ofLiteral name a) := by
  simp [Value.ofLiteral]

@[simp] lemma Onnx.DataType.avoids_element (code : Int) : Avoids P (DataType.element code) := by
  unfold DataType.element
  split <;> simp [Avoids]

namespace Size

variable (a b : Size) (sizes : List Size)

@[simp] lemma avoids_toDouble : Avoids P a.toDouble := by
  unfold toDouble
  split <;> simp

@[simp] lemma avoids_combine (f : Int → Int → Int) (g : Double → Double → Double) :
    Avoids P (a.combine f g b) := by
  unfold combine
  split <;> simp

@[simp] lemma avoids_add : Avoids P (a.add b) := avoids_combine a b _ _

@[simp] lemma avoids_sub : Avoids P (a.sub b) := avoids_combine a b _ _

@[simp] lemma avoids_mul : Avoids P (a.mul b) := avoids_combine a b _ _

@[simp] lemma avoids_neg : Avoids P a.neg := by
  unfold neg
  split <;> simp

@[simp] lemma avoids_floorDiv : Avoids P (a.floorDiv b) := by
  unfold floorDiv
  split <;> simp

@[simp] lemma avoids_isMultipleOf : Avoids P (a.isMultipleOf b) := by
  unfold isMultipleOf
  split <;> simp

@[simp] lemma avoids_compare? : Avoids P (a.compare? b) := by
  unfold compare?
  split <;> simp

@[simp] lemma avoids_less : Avoids P (a.less b) := by simp [less]

@[simp] lemma avoids_atMost : Avoids P (a.atMost b) := by simp [atMost]

@[simp] lemma avoids_larger : Avoids P (a.larger b) := by simp [larger]

@[simp] lemma avoids_smaller : Avoids P (a.smaller b) := by simp [smaller]

@[simp] lemma avoids_sum : Avoids P (sum sizes) := by simp [sum]

@[simp] lemma avoids_toInt : Avoids P a.toInt := by
  unfold toInt
  split <;> simp

@[simp] lemma avoids_index : Avoids P a.index := by
  unfold index
  split <;> simp

@[simp] lemma avoids_count : Avoids P a.count := by simp [count]

@[simp] lemma avoids_countBeside {held : Nat} : Avoids P (a.countBeside held) := by
  simp [countBeside]

@[simp] lemma avoids_toWord : Avoids P a.toWord := by simp [toWord]

@[simp] lemma avoids_product : Avoids P (product sizes) := by simp [product]

end Size

/-! ## Attributes -/

namespace Attribute

variable (v : Attribute)

@[simp] lemma avoids_items : Avoids P v.items := by
  unfold items
  split <;> simp

@[simp] lemma avoids_length : Avoids P v.length := by simp [length]

@[simp] lemma avoids_toInt : Avoids P v.toInt := by
  unfold toInt
  repeat' split
  all_goals simp

@[simp] lemma avoids_toInts : Avoids P v.toInts := by simp [toInts]

@[simp] lemma avoids_isTrue : Avoids P v.isTrue := by
  unfold isTrue
  repeat' split
  all_goals simp

@[simp] lemma avoids_equals (n : Int) : Avoids P (v.equals n) := by
  unfold equals
  repeat' split
  all_goals simp

@[simp] lemma avoids_isText (s : String) : Avoids P (v.isText s) := by
  unfold isText
  repeat' split
  all_goals simp

@[simp] lemma avoids_byteText (layout : Layout) (bs : List UInt8) :
    Avoids P (byteText layout bs) := by
  simp [byteText]

lemma avoids_toLiteral {layout : Layout} {read : Scalar → Except Error Scalar}
    (h : ∀ x, Avoids P (read x)) : Avoids P (v.toLiteral layout read) := by
  unfold toLiteral
  split <;> simp [h]

@[simp] lemma avoids_literalUnder (key : String) : Avoids P (v.literalUnder key) := by
  unfold literalUnder
  repeat' split
  all_goals exact avoids_toLiteral v (by simp)

end Attribute

namespace Quantity

variable (q q' : Quantity) (s : Size)

@[simp] lemma avoids_ofAttribute (v : Attribute) : Avoids P (ofAttribute v) := by
  unfold ofAttribute
  repeat' split
  all_goals simp

@[simp] lemma avoids_inFormat (f : Binary.Format) : Avoids P (inFormat f s) := by simp [inFormat]

@[simp] lemma avoids_compare? : Avoids P (q.compare? s) := by
  unfold compare?
  repeat' split
  all_goals simp

@[simp] lemma avoids_isNegative : Avoids P q.isNegative := by simp [isNegative]

@[simp] lemma avoids_reaches : Avoids P (q.reaches s) := by simp [reaches]

@[simp] lemma avoids_combine (f : Int → Int → Int) (g : Double → Double → Double) :
    Avoids P (q.combine f g s) := by
  have honInteger : ∀ layout bare i s, Avoids P (combine.onInteger f g layout bare i s) := by
    intro layout bare i s
    unfold combine.onInteger
    split <;> simp
  unfold combine
  repeat' split
  all_goals simp [honInteger]

@[simp] lemma avoids_add : Avoids P (q.add s) := avoids_combine q s _ _

@[simp] lemma avoids_normalize : Avoids P (q.normalize s) := by simp [normalize]

@[simp] lemma avoids_sub : Avoids P (q.sub q') := by
  have htoSize : ∀ x, Avoids P (sub.toSize x) := fun x => by
    unfold sub.toSize
    split <;> simp
  unfold sub
  split <;> simp [htoSize]

@[simp] lemma avoids_index : Avoids P q.index := by
  unfold index
  split <;> simp

@[simp] lemma avoids_toSize : Avoids P q.toSize := by
  unfold toSize
  split <;> simp

@[simp] lemma avoids_divides : Avoids P (q.divides s) := by
  unfold divides
  repeat' split
  all_goals simp

end Quantity

namespace Node

variable (n : Node) (i : Nat) (key : String)

@[simp] lemma avoids_input : Avoids P (n.input i) := by
  unfold input
  split <;> simp

@[simp] lemma avoids_output : Avoids P (n.output i) := by
  unfold output
  split <;> simp

@[simp] lemma avoids_integers? : Avoids P (n.integers? i key) := by
  unfold integers?
  repeat' split
  all_goals simp

@[simp] lemma avoids_intList (default : List Int) : Avoids P (n.intList key default) := by
  unfold intList
  repeat' split
  all_goals simp

@[simp] lemma avoids_quantity (default : Size) : Avoids P (n.quantity key default) := by
  unfold quantity
  split <;> simp

@[simp] lemma avoids_flag (default : Bool) : Avoids P (n.flag key default) := by
  unfold flag
  split <;> simp

@[simp] lemma avoids_constant : Avoids P n.constant := by
  unfold constant
  split <;> simp

end Node

@[simp] lemma Place.avoids_get {α : Type} (xs : List α) (i : Int) : Avoids P (Place.get xs i) := by
  simp only [Place.get, avoids_ite, avoids_fault, implies_true, true_and]
  intro _
  split <;> simp

namespace Onnx

@[simp] lemma TensorMessage.avoids_toLiteral (a : TensorMessage) : Avoids P a.toLiteral := by
  have hshared : ∀ width dims bytes, Avoids P (sharedPatterns width dims bytes) := by
    simp [sharedPatterns]
  have hraw : ∀ width raw, Avoids P (a.rawPatterns width raw) := fun width raw => by
    simp only [TensorMessage.rawPatterns]
    repeat' split
    all_goals simp [hshared]
  have hlisted : ∀ layout width, Avoids P (a.listedElements layout width) := fun layout width => by
    have hints : ∀ numbers, Avoids P (TensorMessage.listedElements.ofInts a layout width numbers) := by
      intro numbers
      simp only [TensorMessage.listedElements.ofInts]
      split <;> simp [hshared]
    unfold TensorMessage.listedElements
    repeat' split
    all_goals simp [hints]
  have helements : ∀ layout, Avoids P (a.elements layout) := fun layout => by
    unfold TensorMessage.elements
    split
    · refine avoids_mapM fun bs => ?_
      split <;> simp
    · split <;> simp [hraw, hlisted]
  simp only [TensorMessage.toLiteral]
  repeat' split
  all_goals simp [helements]

@[simp] lemma TensorMessage.avoids_toValue (a : TensorMessage) : Avoids P a.toValue := by
  simp [TensorMessage.toValue]

@[simp] lemma ValueMessage.avoids_toValue (d : ValueMessage) : Avoids P d.toValue := by
  simp [ValueMessage.toValue]

@[simp] lemma avoids_entries (dims : List Int) (size : Nat) (indices values : Literal) :
    Avoids P (entries dims size indices values) := by
  have hspread : ∀ values dims, Avoids P (spreadValues values dims) := fun values dims => by
    unfold spreadValues
    split <;> simp
  have hcoordinates : ∀ width, Avoids P (coordinatePositions dims width indices) := fun width => by
    simp only [coordinatePositions, coordinatePosition]
    split
    · simp
    · split <;> simp
  have hmasked : Avoids P (maskedEntries indices values) := by
    simp only [maskedEntries]
    split <;> simp [hspread]
  have hlinear : ∀ i, Avoids P (linearPosition size i) := by simp [linearPosition]
  have hsingle : ∀ i, Avoids P (singleEntry size i values) := fun i => by
    simp only [singleEntry]
    split
    · simp
    · simp only [avoids_bind, hlinear, true_and]
      intros
      split <;> simp
  unfold entries
  repeat' split
  all_goals simp [allOrNone, toPositions, hspread, hcoordinates, hmasked, hlinear, hsingle]

@[simp] lemma SparseMessage.avoids_toLiteral (a : SparseMessage) : Avoids P a.toLiteral := by
  simp only [SparseMessage.toLiteral, SparseMessage.toLiteralWithin, avoids_bind,
    TensorMessage.avoids_toLiteral, true_and]
  intros
  repeat' split
  all_goals simp

@[simp] lemma NodeMessage.avoids_toAttributes (raw : NodeMessage) : Avoids P raw.toAttributes := by
  have hvalue : ∀ a : AttributeMessage, Avoids P a.value? := fun a => by
    unfold AttributeMessage.value?
    split <;> simp
  refine avoids_foldlM fun t a => ?_
  simp only [avoids_bind, hvalue, true_and]
  intros
  split <;> simp

@[simp] lemma NodeMessage.avoids_knownOperator (raw : NodeMessage) : Avoids P raw.knownOperator := by
  unfold NodeMessage.knownOperator
  split <;> simp [Avoids]

end Onnx

/-! ## Rules -/

namespace Typing

variable (n : Node) (operands : List Value) (rank : Size) (x : ValueType)

@[simp] lemma avoids_broadcastDims (a b : List Size) : Avoids P (broadcastDims a b) := by
  have hmeet : ∀ (e : TypingError) (a b : Size), Avoids P (meetDim (.typing e) a b) := fun e a b => by
    simp [meetDim]
  have hreversed : ∀ (e : TypingError) (as bs : List Size),
      Avoids P (meetReversed (.typing e) as bs) := fun e as bs => by
    induction as, bs using meetReversed.induct <;> simp_all [meetReversed]
  simp [broadcastDims, hreversed]

@[simp] lemma avoids_broadcastShape : Avoids P (broadcastShape operands) := by
  unfold broadcastShape
  split <;> simp

@[simp] lemma avoids_maxRank : Avoids P (maxRank operands) := by
  unfold maxRank
  split <;> simp

@[simp] lemma avoids_entrywise : Avoids P (entrywise n) := by
  have hpromote : ∀ operands : List Value, Avoids P (promoteAll operands) := fun operands => by
    unfold promoteAll
    split <;> simp
  simp [entrywise, entrywiseElement, hpromote]

@[simp] lemma avoids_select : Avoids P (select n) := by simp [select]

@[simp] lemma avoids_matMul : Avoids P (matMul n) := by
  unfold matMul
  split
  · simp only [productRank, avoids_bind, ElementType.avoids_promote, true_and]
    intros
    split <;> simp
  · simp

@[simp] lemma avoids_linear : Avoids P (linear n) := by
  simp only [linear, avoids_bind, Node.avoids_input, true_and]
  intros
  repeat' split
  all_goals simp

@[simp] lemma avoids_gemm : Avoids P (gemm n) := by
  simp only [gemm, avoids_bind, Node.avoids_input, true_and]
  intros
  split <;> simp

@[simp] lemma avoids_normalizeAxis (a : Int) : Avoids P (normalizeAxis rank a) := by
  simp [normalizeAxis]

@[simp] lemma avoids_distinctPlaces (axes : List Int) : Avoids P (distinctPlaces rank axes) := by
  simp [distinctPlaces]

@[simp] lemma avoids_axesUpTo : Avoids P (axesUpTo rank) := by simp [axesUpTo]

@[simp] lemma avoids_reshapeTo (target : List Int) : Avoids P (reshapeTo n x target) := by
  have hfill : ∀ dims target : List Size, Avoids P (fillInferred dims target) := by
    intro dims target
    unfold fillInferred
    split <;> simp
  have hkeep : ∀ dims : List Size, Avoids P (keepZeros n dims target) := by
    intro dims
    simp [keepZeros]
  simp only [reshapeTo]
  repeat' split
  all_goals simp [hfill, hkeep]

@[simp] lemma avoids_reshape : Avoids P (reshape n) := by
  have hrun : ∀ (x : ValueType) (target : Option ValueType), Avoids P (reshapeAtRun x target) := by
    intro x target
    unfold reshapeAtRun
    repeat' split
    all_goals simp
  simp only [reshape]
  split
  · simp
  · simp only [avoids_bind, Node.avoids_input, Node.avoids_integers?, true_and]
    intros
    split <;> simp [hrun]

@[simp] lemma avoids_flatten : Avoids P (flatten n) := by
  simp only [flatten, avoids_bind, Node.avoids_input, Node.avoids_quantity, Quantity.avoids_normalize,
    true_and]
  intros
  split <;> simp

@[simp] lemma avoids_unsqueezeAt (axes : List Int) : Avoids P (unsqueezeAt x axes) := by
  simp only [unsqueezeAt, avoids_bind, Size.avoids_add, true_and]
  intros
  split <;> simp [insertionPlace]

@[simp] lemma avoids_unsqueeze : Avoids P (unsqueeze n) := by
  simp only [unsqueeze, avoids_bind, Node.avoids_input, Node.avoids_output, Node.avoids_integers?,
    true_and]
  intros
  repeat' split
  all_goals simp

@[simp] lemma avoids_squeeze : Avoids P (squeeze n) := by
  simp only [squeeze, avoids_bind, Node.avoids_input, Node.avoids_output, Node.avoids_integers?,
    true_and]
  intros
  repeat' split
  all_goals simp [squeezeAt]

@[simp] lemma avoids_transpose : Avoids P (transpose n) := by
  have hperm : ∀ rank, Avoids P (permutation n rank) := fun rank => by
    unfold permutation
    split <;> simp
  have haxes : ∀ rank axes, Avoids P (permutedAxes rank axes) := fun rank axes => by
    simp [permutedAxes]
  simp only [transpose]
  split
  · simp
  · simp only [avoids_bind, Node.avoids_input, hperm, true_and]
    intros
    split
    · simp
    · simp only [avoids_bind, haxes, true_and]
      intros
      split <;> simp

@[simp] lemma avoids_concat : Avoids P (concat n) := by
  have haxis : ∀ rank, Avoids P (joinAxis n rank) := fun rank => by
    simp [joinAxis]
  have hshape : ∀ axis shapes, Avoids P (joinedShape axis shapes) := fun axis shapes => by
    simp [joinedShape]
  simp only [concat]
  repeat' split
  all_goals simp [haxis, hshape]

@[simp] lemma avoids_gather : Avoids P (gather n) := by
  have hreplaced : ∀ axis dims inserted, Avoids P (replacedAt axis dims inserted) := by
    simp [replacedAt]
  simp only [gather, avoids_bind, Node.avoids_input, true_and]
  intros
  split
  · simp
  · simp only [avoids_bind, Node.avoids_quantity, Quantity.avoids_normalize, true_and]
    intros
    split <;> simp [hreplaced]

@[simp] lemma avoids_cast : Avoids P (cast n) := by
  simp only [cast]
  repeat' split
  all_goals simp

@[simp] lemma avoids_constant : Avoids P (constant n) := by simp [constant]

@[simp] lemma avoids_constantOfShape : Avoids P (constantOfShape n) := by
  have hfill : Avoids P (fillElement n) := by
    unfold fillElement
    split <;> simp
  simp only [constantOfShape, avoids_bind, Node.avoids_input, hfill, true_and]
  intros
  repeat' split
  all_goals simp

@[simp] lemma avoids_shape : Avoids P (shape n) := by
  simp [shape, placesBetween]

@[simp] lemma avoids_reduce : Avoids P (reduce n) := by
  have hgreatest : ∀ rank, Avoids P (greatestAxis n rank) := fun rank => by
    simp only [greatestAxis, avoids_bind, Node.avoids_quantity, true_and]
    intros
    repeat' split
    all_goals simp
  have hplaces : ∀ rank, Avoids P (reducedPlaces n rank) := fun rank => by
    simp only [reducedPlaces]
    split
    · simp [hgreatest]
    · simp only [avoids_bind, Node.avoids_integers?, true_and]
      intros
      split <;> simp
  simp [reduce, hplaces]

@[simp] lemma avoids_spatialCount (o : Operator) : Avoids P (spatialCount o rank) := by
  unfold spatialCount
  split <;> simp

@[simp] lemma avoids_kernelSizes (default : List Size) : Avoids P (kernelSizes n default) := by
  unfold kernelSizes
  split <;> simp

@[simp] lemma avoids_groupedChannels (channels : Size) : Avoids P (groupedChannels n channels) := by
  have hrepeated : ∀ v size, Avoids P (repeated v size) := fun v size => by
    simp only [repeated, avoids_bind, Size.avoids_index, true_and]
    intros
    split <;> simp
  unfold groupedChannels
  repeat' split
  all_goals simp [hrepeated]

@[simp] lemma avoids_spatialDims (dims kernel : List Size) : Avoids P (spatialDims n dims kernel) := by
  have hcovers : Avoids P (coversAxes n) := by
    unfold coversAxes
    split <;> simp
  have hcount : ∀ size stride, Avoids P (coverCount size stride) := by simp [coverCount]
  have hwindow : ∀ size kernel stride dilation before after,
      Avoids P (windowCount size kernel stride dilation before after) := by simp [windowCount]
  simp [spatialDims, hcovers, hcount, hwindow]

@[simp] lemma avoids_conv : Avoids P (conv n) := by
  have hgroups : ∀ channels, Avoids P (groupsDivide n channels) := by simp [groupsDivide]
  unfold conv
  split
  · simp only [avoids_bind, avoids_spatialCount, Size.avoids_add, true_and]
    intros
    repeat' split
    all_goals simp [hgroups]
  · simp

@[simp] lemma avoids_convTranspose : Avoids P (convTranspose n) := by
  have hscattered : ∀ size kernel stride dilation padding before after,
      Avoids P (scatteredSize size kernel stride dilation padding before after) := by
    simp [scatteredSize]
  simp only [convTranspose, avoids_bind, Node.avoids_input, true_and]
  intros
  split <;> simp [hscattered]

@[simp] lemma avoids_pool : Avoids P (pool n) := by
  simp only [pool]
  split
  · simp
  · simp only [avoids_bind, Node.avoids_input, Node.avoids_intList, true_and]
    intros
    repeat' split
    all_goals simp

@[simp] lemma avoids_globalPool : Avoids P (globalPool n) := by simp [globalPool]

/-- No rule fails because of a name. -/
lemma avoids_rule {o : Operator} {rule : Node → Except Error ValueType} (h : rule? o = some rule) :
    Avoids P (rule n) := by
  unfold rule? at h
  split at h
  all_goals first | (obtain rfl := Option.some.inj h; simp) | simp at h

end Typing

lemma Node.avoids_infer (n : Node) : Avoids P n.infer := by
  have htyped : Avoids P n.typedOutputs := by
    unfold Node.typedOutputs
    split
    · simp
    · next rule h =>
      simp only [avoids_bind, Typing.avoids_rule n h, true_and]
      intros
      split <;> simp
  simp [Node.infer, htyped]

end TensorGraph
