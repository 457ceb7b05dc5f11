import TensorGraph.Proofs.GemmLayers
import TensorGraph.Proofs.Import.Trace
import TensorGraph.Proofs.Moving.Typing

/-!
# Layers with an array moved into a Constant

Where the array is the matrix of a product, or a bias that is added to one, the one run makes a layer
of what stays a product or a sum in the other. Both are typed alike if the data are stacks of matrices
(`ValueType.Stacks`) and the bias does not change the type of the product (`Typing.Gives`).
-/

namespace TensorGraph

open Onnx Typing ValueType

/-- The type of stacks of matrices that a matrix of elements `e` multiplies row by row: its elements
stay of their type, and no axis of the stack is empty. -/
structure ValueType.Stacks (t : ValueType) (e : ElementType) : Prop where
  element : t.element.promote e = .ok t.element
  /-- A vector may only be multiplied if its size is unknown. -/
  axes : ∃ r : Nat, t.rank = .ofNat r ∧ if t.dims?.isSome then 2 ≤ r else 1 ≤ r
  sizes : ∀ ds, t.dims? = some ds → ∀ d ∈ Place.before ds (-2), d.less 1 ≠ .ok true

/-- Where the node multiplies its data with a matrix, a layer in its place has the same type. -/
structure Node.FitsLayer (n : Node) : Prop where
  gemm : n.operator = .gemm →
    (∀ u, n.input 0 = .ok u → u.type.HasAxes 2) ∧ ∃ turned, n.StoresTurned turned
  matMul : n.operator = .matMul → ∀ u w, n.inputs = [u, w] → u.type.Stacks w.type.element

/-- Taken together, the operands have the elements, the rank and the sizes of `t`. -/
structure Typing.Gives (operands : List Value) (t : ValueType) : Prop where
  element : promoteAll operands = .ok t.element
  rank : maxRank operands = .ok t.rank
  dims : broadcastShape operands = .ok t.dims?

/-- The product that the passage starts from writes `o` first. Adding the bias does not change its type,
and none of the messages after that reads it. -/
structure Passage.KeepsSum (r : Registry) (later : List NodeMessage) (p : Passage) (o : String) :
    Prop where
  output : p.message.outputs.head? = some o
  named : o ≠ ""
  unread : ∀ n ∈ later, o ∉ n.inputs
  gives : ∀ sum ∈ p.next, ∀ add, r.convert sum = .ok add → ∀ y ∈ p.typed.outputs.head?,
    Gives (add.inputs.map fun v => if v.name = o then { v with type := y.type } else v) y.type

/-- Where the passage makes a layer with the array `x`, a product and a sum in its place have the same
type. -/
structure Passage.KeepsLayer (r : Registry) (later : List NodeMessage) (x : String) (p : Passage) :
    Prop where
  data : p.fused.operator = .linear → p.message.inputs[1]? = some x → p.specialised.FitsLayer
  sum : p.consumed = true → (p.message.inputs[1]? = some x ∨ ∃ n ∈ p.next, x ∈ n.inputs) →
    ∃ o, p.KeepsSum r later o

/-- Every layer that is made with the array `x` has the type of a product and a sum in its place. -/
def Onnx.ModelMessage.KeepsLayers (m : ModelMessage) (x : String) : Prop :=
  ∀ ps p rest s s', Run m ps (p.message :: rest) s → p.next = rest.head? → Step s p s' →
    p.KeepsLayer s.registry rest.tail x

variable {n n' f m m' : Node} {x x' w w' : Value} {vs ws : List Value} {t t' : ValueType}
  {e : ElementType} {s columns : Size} {ds bs : List Size} {clash : Error} {a : Value}
  {outer : String → Option Nat} {dims : Option (List Size)} {r : Registry} {consumed : Bool}
  {next : Option NodeMessage}

/-- A node whose first output is typed by a rule. -/
lemma Node.infer_of_rule {rule : Node → Except Error ValueType} (hrule : rule? n.operator = some rule)
    (h : n.infer = .ok m) :
    ∃ t, rule n = .ok t ∧ m = { n with outputs := n.outputs.modifyHead ({ · with type := t }) } := by
  simp only [Node.infer, Node.typedOutputs, hrule, Except.bind_eq_ok, Except.pure_eq_ok] at h
  obtain ⟨_, ⟨t, ht, h⟩, rfl⟩ := h
  refine ⟨t, ht, ?_⟩
  cases hout : n.outputs with
  | nil =>
    rw [hout] at h
    cases h
  | cons v vs =>
    rw [hout, Except.pure_eq_ok] at h
    rw [← h]
    rfl

/-- A layer is typed by its first two operands. -/
lemma linear_of_cons_cons {u u' v v' : Value} {us us' : List Value} (hin : n.inputs = u :: v :: us)
    (hin' : n'.inputs = u' :: v' :: us') (hu : u'.type = u.type) (hv : v'.type = v.type) :
    linear n' = linear n := by
  have hread : ∀ {n : Node} {u v : Value} {us : List Value}, n.inputs = u :: v :: us →
      n.input 0 = .ok u ∧ n.input 1 = .ok v := by
    intro n u v us hin
    rw [Node.input_eq_ok, Node.input_eq_ok, hin]
    exact ⟨rfl, rfl⟩
  simp only [linear, hread hin, hread hin', Except.ok_bind, hu, hv]

/-- A size that is not below one meets a missing axis and stays as it is. -/
lemma meetDim_missing (hone : s.less 1 ≠ .ok true) (h : meetDim clash s 1 = .ok columns) :
    columns = s := by
  unfold meetDim at h
  split at h
  · exact (Except.ok.inj h).symm
  · have hequals : Size.equals 1 1 = true := rfl
    rw [hequals, Bool.or_true, if_pos rfl, Size.larger, Except.bind_eq_ok] at h
    obtain ⟨b, hb, h⟩ := h
    cases b with
    | true => exact absurd hb hone
    | false => exact (Except.pure_eq_ok.mp h).symm

lemma meetReversed_missing (hone : ∀ d ∈ ds, d.less 1 ≠ .ok true)
    (h : meetReversed clash ds [] = .ok bs) : bs = ds := by
  have hmap : meetReversed clash ds [] = ds.mapM (meetDim clash · 1) := by cases ds <;> rfl
  rw [hmap] at h
  clear hmap
  induction ds generalizing bs with
  | nil => exact (Except.pure_eq_ok.mp h).symm
  | cons d ds ih =>
    simp only [List.mapM_cons, Except.bind_eq_ok, Except.pure_eq_ok] at h
    obtain ⟨c, hc, cs, hcs, rfl⟩ := h
    rw [meetDim_missing (hone d List.mem_cons_self) hc,
      ih (fun d hd => hone d (List.mem_cons_of_mem _ hd)) hcs]

lemma broadcastDims_missing (hone : ∀ d ∈ ds, d.less 1 ≠ .ok true)
    (h : broadcastDims ds [] = .ok bs) : bs = ds := by
  unfold broadcastDims at h
  obtain ⟨es, hes, rfl⟩ := Except.map_eq_ok.mp h
  rw [meetReversed_missing (fun d hd => hone d (List.mem_reverse.mp hd)) hes, List.reverse_reverse]

/-- The sizes before the last one are those before the last two and the one between. -/
lemma before_last (h : Place.get ds (-2) = .ok s) :
    Place.before ds (-1) = Place.before ds (-2) ++ [s] := by
  have hlen : 2 ≤ ds.length := by
    by_contra hlen
    simp [Place.get, show (-2 + (ds.length : Int)) < 0 by omega, outOfRange] at h
  have hclamp : ∀ k : Nat, 0 < k → k ≤ 2 → Place.clamp ds.length (-k) = ds.length - k := by
    intro k hk hle
    rw [Place.clamp, if_pos (by omega)]
    omega
  have hone : Place.clamp ds.length (-1) = ds.length - 2 + 1 :=
    (hclamp 1 (by omega) (by omega)).trans (by omega)
  have htwo : Place.clamp ds.length (-2) = ds.length - 2 := hclamp 2 (by omega) (by omega)
  have hget : ds[ds.length - 2]? = some s := by
    have hplace : (-2 + (ds.length : Int)).toNat = ds.length - 2 := by omega
    simp only [Place.get, if_pos (show (-2 : Int) < 0 by omega), hplace,
      if_neg (show ¬ (-2 + (ds.length : Int) < 0) by omega)] at h
    split at h
    · next hs => rw [hs, Except.ok.inj h]
    · cases h
  rw [Place.before, Place.before, hone, htwo, List.take_add_one, hget, Option.toList_some]

/-- A product of stacks of matrices with a matrix is typed as the layer is. -/
lemma matMul_eq_linear (hstacks : x.type.Stacks w.type.element)
    (htype : w.type = .tensor e 2 (some [s, columns])) (hin : n.inputs = [x', w'])
    (hxt : x'.type = x.type) (hwt : w'.type = w.type) (hx : m.input 0 = .ok x)
    (hw : m.input 1 = .ok w) (h : linear m = .ok t) (h' : matMul n = .ok t') : t' = t := by
  obtain ⟨r, hr, hpos⟩ := hstacks.axes
  have hrank : productRank x.type.rank 2 = .ok x.type.rank := by
    rw [hr]
    refine (productRank_eq r 2).trans (congrArg (Except.ok ∘ Size.whole) ?_)
    split at hpos <;> split <;> omega
  have hweights : w.type.rank = 2 := by rw [htype]; rfl
  have hdims : w.type.dims? = some [s, columns] := by rw [htype]; rfl
  have hmatrix : Size.equals 2 2 = true := rfl
  unfold matMul at h'
  rw [hin] at h'
  split at h'
  swap
  · cases h'
  next u v _ hinputs _ =>
  obtain ⟨rfl, rfl⟩ : x' = u ∧ w' = v := by simpa using hinputs
  dsimp only at h'
  rw [hxt, hwt, hstacks.element, Except.ok_bind, hweights, hrank, Except.ok_bind, hdims] at h'
  simp only [linear, hx, hw, Except.ok_bind, hweights, hmatrix, hdims, Bool.not_true,
    Bool.false_eq_true, if_false] at h
  cases hds : x.type.dims? with
  | none =>
    rw [hds] at h h'
    exact (Except.pure_eq_ok.mp h').symm.trans (Except.pure_eq_ok.mp h)
  | some ds =>
    rw [hds, Option.isSome_some, if_pos rfl] at hpos
    have hless : x.type.rank.less 2 = .ok false := by
      rw [hr, show (2 : Size) = .ofNat 2 from rfl, Size.less_ofNat, decide_eq_false (by omega)]
    have hless' : Size.less 2 2 = .ok false := rfl
    rw [hds] at h h'
    dsimp only at h h'
    rw [hless, hless', Except.ok_bind, Except.ok_bind, if_neg (by simp)] at h'
    obtain ⟨batch, hbatch, h'⟩ := Except.bind_eq_ok.mp h'
    obtain rfl := broadcastDims_missing (hstacks.sizes ds hds) hbatch
    simp only [Except.bind_eq_ok] at h'
    obtain ⟨_, -, _, -, h'⟩ := h'
    split at h'
    · cases h'
    simp only [Except.bind_eq_ok, Except.pure_eq_ok] at h'
    obtain ⟨row, hrow, column, hcolumn, rfl⟩ := h'
    obtain rfl : columns = column := Except.ok.inj hcolumn
    rw [show Place.get [s, columns] 1 = .ok columns from rfl, before_last hrow] at h
    obtain rfl := Except.pure_eq_ok.mp h
    rw [List.append_assoc]
    rfl

namespace Node

/-- A general product is typed as the layer that is made of it. -/
lemma gemm_eq_linear {l : Literal} {turned : Bool} (h : n.MultipliesBy x w l turned)
    (hop : n.operator = .gemm) (hfuse : n.fuseGemm = .ok f) (hlinear : f.operator = .linear) :
    Typing.linear f = Typing.gemm n := by
  rcases fuseGemm_cases hfuse with rfl | ⟨hleft, turned', attributes, -, hstores, rfl⟩
  · simp [hop] at hlinear
  obtain rfl : turned = turned' := Except.ok.inj (h.stores.storesTransposed.symm.trans hstores)
  obtain ⟨rows, columns, hshape⟩ := List.length_eq_two.mp h.axes
  rw [h.gemm_eq hshape hleft, h.linear_eq hshape h.layer_inputs]

section Layer

variable {l : Literal} (hw : n.inputs[1]? = some w) (hl : w.literal = some l)
  (haxes : l.shape.length = 2) (htyped : w.TypedAsLiteral) (hfits : n.FitsLayer)
  (hf : n.fuse r next = .ok (f, consumed)) (hlinear : f.operator = .linear)
  (hm : List.Forall₂ (fun v w : Value => w.type = v.type) f.inputs m.inputs)
  (htype : Typing.linear m = .ok t)
  (hm' : List.Forall₂ (fun v w : Value => w.type = v.type) n.inputs m'.inputs)

include hw hl haxes htyped hfits hf hlinear hm htype hm'

/-- The layer that is made of a general product is typed as the product. -/
lemma layer_type_of_gemm (hop : n.operator = .gemm) (hattributes : m'.attributes = n.attributes)
    (htype' : Typing.gemm m' = .ok t') : t' = t := by
  have hreading : ∀ {n m : Node}, List.Forall₂ (fun v w : Value => w.type = v.type) n.inputs m.inputs →
      List.Forall₂ (fun v w : Value => v.type.SameReading w.type) n.inputs m.inputs :=
    fun h => h.imp fun _ _ hv => hv ▸ .refl _
  obtain ⟨haxes₂, turned, hturned⟩ := hfits.gemm hop
  rw [← gemm_congr (hreading hm') hattributes.symm] at htype'
  rw [← linear_congr (hreading hm)] at htype
  obtain ⟨u, hu, -⟩ := Except.bind_eq_ok.mp htype'
  have hmultiplies : n.MultipliesBy u w l turned :=
    ⟨hu, haxes₂ u hu, input_eq_ok.mpr hw, hl, htyped l hl, haxes, hturned⟩
  simp only [Node.fuse, hop, Except.bind_eq_ok, Except.pure_eq_ok, Prod.mk.injEq] at hf
  obtain ⟨_, hfuse, rfl, -⟩ := hf
  rw [gemm_eq_linear hmultiplies hop hfuse hlinear] at htype
  exact Except.ok.inj (htype'.symm.trans htype)

/-- The layer that is made of a product of stacks of matrices is typed as the product. -/
lemma layer_type_of_matMul (hop : n.operator = .matMul) (htype' : Typing.matMul m' = .ok t') :
    t' = t := by
  obtain ⟨u', w', hpair⟩ : ∃ u' w', m'.inputs = [u', w'] := by
    unfold Typing.matMul at htype'
    split at htype'
    · next u' w' _ hpair _ => exact ⟨u', w', hpair⟩
    · cases htype'
  rw [hpair] at hm'
  obtain ⟨u, v, hin, hu, hv⟩ := forall₂_pair hm'.flip
  obtain rfl : v = w := by simpa [hin] using hw
  obtain ⟨us, hlayer⟩ : ∃ us, f.inputs = u :: v :: us := by
    cases fuse_ok hf with
    | same node => simp [node, hop] at hlinear
    | gemm operator => simp [hop] at operator
    | product _ node => exact ⟨[], by rw [node, hin]⟩
    | @biased _ _ bias _ _ _ _ _ _ _ _ _ _ node => exact ⟨[bias], by rw [node, hin]; rfl⟩
  rw [hlayer] at hm
  obtain ⟨u₂, _, hu₂, hm, hm₂⟩ := List.forall₂_cons_left_iff.mp hm
  obtain ⟨v₂, vs₂, hv₂, -, rfl⟩ := List.forall₂_cons_left_iff.mp hm
  obtain ⟨e, -, hvtype⟩ := Literal.type_eq_ok.mp (htyped l hl)
  obtain ⟨rows, columns, hshape⟩ := List.length_eq_two.mp haxes
  rw [hshape, if_neg (by simp)] at hvtype
  refine matMul_eq_linear (x := u₂) (w := v₂) ?_ (hv₂.trans hvtype) hpair (hu.trans hu₂.symm)
    (hv.trans hv₂.symm) (by rw [input_eq_ok, hm₂]; rfl) (by rw [input_eq_ok, hm₂]; rfl) htype htype'
  rw [hu₂, hv₂]
  exact hfits.matMul hop u v hin

end Layer

/-- Where the array is the matrix of a product, the layer that the one run makes of it is typed as the
product that it stays in the other. -/
theorem Moved.layer_type {rule : Node → Except Error ValueType} (h : n.Moved a outer n')
    (ha : a.TypedAsLiteral) (hproduct : n.operator = .gemm ∨ n.operator = .matMul)
    (hweighed : n.WeighedBy a) (hmatrix : n.hasLiteralMatrix 1 = true)
    (hf : n.fuse r next = .ok (f, consumed)) (hlinear : f.operator = .linear) (hfits : n.FitsLayer)
    (hm : List.Forall₂ (fun v w => w.type = v.type) f.inputs m.inputs) (htype : Typing.linear m = .ok t)
    (hm' : List.Forall₂ (fun v w => w.type = v.type) n'.inputs m'.inputs)
    (hop : m'.operator = n'.operator) (hattributes : m'.attributes = n'.attributes)
    (hrule : rule? m'.operator = some rule) (htype' : rule m' = .ok t') : t' = t := by
  obtain ⟨w, hw, hname⟩ := Option.map_eq_some_iff.mp hweighed
  have hsame : a.Same w := by
    obtain ⟨w', -, hread⟩ := forall₂_getElem? h.inputs.flip hw
    exact (hread.own hname).1
  have hliteral : w.isLiteralMatrix = true := by simpa [Node.hasLiteralMatrix, hw] using hmatrix
  have htyped : w.TypedAsLiteral := ha.congr hsame.literal hsame.type
  obtain ⟨l, hl, haxes⟩ := htyped.matrix hliteral
  have hin' : List.Forall₂ (fun v w => w.type = v.type) n.inputs m'.inputs :=
    forall₂_trans (fun _ _ _ hv hw => hw.trans hv) (h.inputs.imp fun _ _ hv => hv.type) hm'
  rw [hop, h.operator] at hrule
  rcases hproduct with hgemm | hmatMul
  · rw [hgemm] at hrule
    obtain rfl : Typing.gemm = rule := Option.some.inj hrule
    exact layer_type_of_gemm hw hl haxes htyped hfits hf hlinear hm htype hin' hgemm
      (hattributes.trans h.attributes) htype'
  · rw [hmatMul] at hrule
    obtain rfl : Typing.matMul = rule := Option.some.inj hrule
    exact layer_type_of_matMul hw hl haxes htyped hfits hf hlinear hm htype hin' hmatMul htype'

end Node

/-! ## Sums -/

lemma Typing.Gives.congr (h : Gives vs t) (hvs : List.Forall₂ (fun v w => v.type = w.type) vs ws) :
    Gives ws t where
  element := promoteAll_congr (hvs.imp fun _ _ hv => congrArg _ hv) ▸ h.element
  rank := maxRank_congr (hvs.imp fun _ _ hv => congrArg _ hv) ▸ h.rank
  dims := by
    have hdims := mapM_dims_congr (hvs.imp fun _ _ hv => congrArg ValueType.dims? hv)
    rw [← h.dims, broadcastShape, broadcastShape, hdims]

/-- A sum of operands that are all there has the type that they give, taken together. -/
lemma entrywise_of_gives (hop : n.operator = .add) (hpresent : ∀ v ∈ n.inputs, v.present = true)
    (hgives : Gives n.inputs t) (h : entrywise n = .ok t') :
    t' = .ofRank t.element t.rank t.dims? := by
  have hoperands : presentOperands n = n.inputs := by
    have hfilter : n.inputs.filter Value.present = n.inputs := List.filter_eq_self.mpr hpresent
    unfold Value.present at hfilter
    rw [presentOperands, hfilter]
    split <;> simp_all
  have helement : entrywiseElement n.operator n.inputs = .ok t.element := by
    simp [entrywiseElement, hop, hgives.element, isComparison]
  unfold entrywise at h
  split at h
  · cases h
  dsimp only at h
  rw [hoperands, helement, hgives.rank, hgives.dims] at h
  exact (Except.pure_eq_ok.mp h).symm

/-- The type of a layer is made of its elements, its rank and its sizes. -/
lemma ofRank_of_linear (h : linear n = .ok t) : .ofRank t.element t.rank t.dims? = t := by
  have hofRank : ∀ e s dims, ofRank (ofRank e s dims).element (ofRank e s dims).rank
      (ofRank e s dims).dims? = ofRank e s dims := by
    intro e s dims
    unfold ofRank
    split
    · rfl
    · next hs => simp [ValueType.rank, ValueType.element, ValueType.dims?, hs]
  simp only [linear, Except.bind_eq_ok] at h
  obtain ⟨u, -, w, -, h⟩ := h
  split at h
  · cases h
  split at h <;> simp only [Except.bind_eq_ok, Except.pure_eq_ok] at h
  · obtain ⟨_, -, dims, -, rfl⟩ := h
    exact hofRank _ _ _
  · obtain ⟨dims, -, rfl⟩ := h
    exact hofRank _ _ _

end TensorGraph
