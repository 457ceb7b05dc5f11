import TensorGraph.Proofs.Broadcasts
import TensorGraph.Proofs.Contradictions
import TensorGraph.Proofs.Import.Stages
import TensorGraph.Proofs.LiteralTypes

/-!
# Types of fused products

A product of matrices that takes over the bias of the next node is typed by its first two operands
alone, while an addition broadcasts its operands. Fusion therefore keeps the type if and only if the
bias is broadcast into the product (`Node.fuse_resultType_iff`).
-/

namespace TensorGraph

open Onnx Typing ValueType

namespace Node

/-- The type that typing gives the first output of a node. -/
def resultType (n : Node) : Except Error ValueType := do
  return (← (← n.infer).output 0).type

/-- The type that typing gives the first output of a node that reads what `product` writes. -/
def resultTypeAfter (n product : Node) : Except Error ValueType := do
  let y ← (← product.infer).output 0
  { n with inputs := n.inputs.map fun (v : Value) => if v.name = y.name then y else v }.resultType

/-- The node `n` is the product of `x`, a stack of matrices whose sizes are known and positive, with
the matrix `c`, and `add` adds the array `a` to it. All elements have the type `e`. -/
structure Biases (add n : Node) (x w y p b : Value) (e : ElementType) (batch : List Int)
    (rows : Int) (height width : Nat) (c a : Literal) : Prop where
  operands : n.inputs = [x, w]
  output : n.output 0 = .ok y
  named : y.name ≠ ""
  summands : add.inputs = [p, b] ∨ add.inputs = [b, p]
  product : p.name = y.name
  apart : b.name ≠ y.name
  data : x.type = .tensor e (.ofNat (batch.length + 2)) (some ((batch ++ [rows, height]).map .whole))
  positive : ∀ d ∈ batch ++ [rows, (height : Int)], 0 < d
  weight : w.literal = some c
  weightType : c.type = .ok w.type
  weightSizes : c.shape = [height, width]
  weightElement : w.type.element = e
  bias : b.literal = some a
  biasType : a.type = .ok b.type
  biasElement : b.type.element = e

end Node

/-- An axis of size `b` is broadcast into one of size `d`. An empty axis passes for an axis of size
one where it meets one. -/
def FitsAxis (b : Nat) (d : Int) : Prop := b = d ∨ b = 1 ∨ b = 0 ∧ d = 1

instance (b : Nat) (d : Int) : Decidable (FitsAxis b d) := by
  unfold FitsAxis
  infer_instance

/-- Axes of sizes `bs`, matched from the last one back, are broadcast into axes of sizes `ds`. -/
def FitsInto (bs : List Nat) (ds : List Int) : Prop :=
  List.Forall₂ FitsAxis bs.reverse (ds.reverse.take bs.length)

instance (bs : List Nat) (ds : List Int) : Decidable (FitsInto bs ds) := by
  unfold FitsInto
  infer_instance

section Broadcasting

variable {as bs cs ds : List Int}

lemma meet_eq_left_iff (clash : Error) {b : Nat} {d : Int} (hd : 0 < d) :
    (meetDim clash (.whole d) (.whole b) = .ok (.whole d)) ↔ FitsAxis b d := by
  rw [meetDim_whole]
  unfold FitsAxis
  split
  · rw [Except.ok.injEq, Size.whole.injEq]
    omega
  · simp only [reduceCtorEq, false_iff]
    omega

/-- Sizes are what they were after others have been broadcast into them if and only if those fit. -/
lemma meetReversed_eq_left_iff {clash : Error} {bs : List Nat} (hds : ∀ d ∈ ds, 0 < d) :
    meetReversed clash (ds.map .whole) ((bs.map Int.ofNat).map .whole) = .ok (ds.map .whole) ↔
      List.Forall₂ FitsAxis bs (ds.take bs.length) := by
  induction ds generalizing bs with
  | nil =>
    cases bs with
    | nil => exact iff_of_true rfl .nil
    | cons b bs =>
      refine iff_of_false (fun h => ?_) (by simp)
      have hlen := length_meetReversed h
      simp at hlen
  | cons d ds ih =>
    have hd : 0 < d := hds d List.mem_cons_self
    have hrest := fun d hd => hds d (List.mem_cons_of_mem _ hd)
    cases bs with
    | nil =>
      have hnil := meetReversed_comm clash (d :: ds) []
      rw [List.map_nil, meetReversed_nil] at hnil
      rw [List.map_nil, List.map_nil, hnil]
      refine iff_of_true (congrArg _ (congrArg _ ?_)) .nil
      refine (List.map_congr_left fun e he => ?_).trans (List.map_id _)
      exact Int.max_eq_right (hds e he)
    | cons b bs =>
      rw [List.map_cons, List.map_cons, List.map_cons, meetReversed, List.length_cons,
        List.take_succ_cons, List.forall₂_cons, ← meet_eq_left_iff clash hd, ← ih hrest]
      simp only [Except.bind_eq_ok, Except.pure_eq_ok, List.cons.injEq]
      constructor
      · rintro ⟨c, hc, cs, hcs, rfl, rfl⟩
        exact ⟨hc, hcs⟩
      · rintro ⟨hc, hcs⟩
        exact ⟨_, hc, _, hcs, rfl, rfl⟩

lemma map_max_one (hds : ∀ d ∈ ds, 0 < d) : ds.map (max 1) = ds :=
  (List.map_congr_left fun d hd => Int.max_eq_right (hds d hd)).trans (List.map_id ds)

lemma one_le_of_broadcastDims (h : broadcastDims ((as.map (max 1)).map .whole) (bs.map .whole) =
    .ok (cs.map .whole)) : ∀ c ∈ cs, 0 < c := by
  intro c hc
  have hone : ∀ a ∈ (as.map (max 1)).reverse, 1 ≤ a := by
    intro a ha
    obtain ⟨b, -, rfl⟩ := List.mem_map.mp (List.mem_reverse.mp ha)
    exact Int.le_max_left 1 b
  exact one_le_of_meetReversed hone (broadcastDims_eq_ok.mp h) c (List.mem_reverse.mpr hc)

variable {es : List Nat}

lemma broadcastDims_eq_fst_iff (hds : ∀ d ∈ ds, 0 < d) :
    broadcastDims (ds.map .whole) ((es.map Int.ofNat).map .whole) = .ok (ds.map .whole) ↔
      FitsInto es ds := by
  rw [broadcastDims_eq_ok, ← List.map_reverse]
  refine (meetReversed_eq_left_iff fun d hd => hds d (List.mem_reverse.mp hd)).trans ?_
  rw [List.length_reverse]
  rfl

lemma broadcastDims_eq_snd_iff (hds : ∀ d ∈ ds, 0 < d) :
    broadcastDims ((es.map Int.ofNat).map .whole) (ds.map .whole) = .ok (ds.map .whole) ↔
      FitsInto es ds := by
  rw [broadcastDims_eq_ok, meetReversed_comm, ← List.map_reverse]
  refine (meetReversed_eq_left_iff fun d hd => hds d (List.mem_reverse.mp hd)).trans ?_
  rw [List.length_reverse]
  rfl

/-- The sizes that are broadcast first, from no sizes at all, stay as they are when others follow. -/
lemma broadcast_first_iff : broadcastDims ((ds.map (max 1)).map .whole)
    ((es.map Int.ofNat).map .whole) = .ok (ds.map .whole) ↔ (∀ d ∈ ds, 0 < d) ∧ FitsInto es ds := by
  constructor
  · intro h
    have hds := one_le_of_broadcastDims h
    rw [map_max_one hds, broadcastDims_eq_fst_iff hds] at h
    exact ⟨hds, h⟩
  · rintro ⟨hds, h⟩
    rwa [map_max_one hds, broadcastDims_eq_fst_iff hds]

/-- The sizes that are broadcast last stay as they are. -/
lemma broadcast_last_iff : broadcastDims (((es.map Int.ofNat).map (max 1)).map .whole)
    (ds.map .whole) = .ok (ds.map .whole) ↔
      (∀ d ∈ ds, 0 < d) ∧ FitsInto (es.map (max 1)) ds := by
  have hmax : (es.map Int.ofNat).map (max 1) = (es.map (max 1)).map Int.ofNat := by
    simp only [List.map_map, List.map_inj_left, Function.comp_apply, Int.ofNat_eq_natCast]
    omega
  constructor
  · intro h
    have hds := one_le_of_broadcastDims h
    rw [hmax, broadcastDims_eq_snd_iff hds] at h
    exact ⟨hds, h⟩
  · rintro ⟨hds, h⟩
    rwa [hmax, broadcastDims_eq_snd_iff hds]

end Broadcasting

section Addition

variable {n : Node} {u v : Value} {us vs : List Int} {e : ElementType} {rank : Nat}
  {operands : List Value} {shapes : List (List Int)}

lemma Literal.sized_type {a : Literal} {t : ValueType} (h : a.type = .ok t) :
    t.Sized (a.shape.map Int.ofNat) := by
  obtain ⟨e, -, rfl⟩ := Literal.type_eq_ok.mp h
  split
  · next hnil =>
    rw [hnil]
    exact ⟨rfl, rfl⟩
  · refine ⟨?_, ?_⟩
    · rw [List.length_map]
      rfl
    · rw [List.map_map]
      rfl

lemma ofRank_of_pos {r : Nat} (hr : 0 < r) (dims : Option (List Size)) :
    ofRank e (.ofNat r) dims = .tensor e (.ofNat r) dims := by
  have hne : r ≠ 0 := by omega
  have hzero : (Size.ofNat r).equals 0 = false := (Size.equals_ofNat r 0).trans (decide_eq_false hne)
  rw [ofRank, hzero]
  rfl

/-- As many known sizes as there are axes are the sizes of those, also if there are none. -/
lemma dims?_ofRank_of_length {r : Nat} {sizes : List Size} (h : sizes.length = r) :
    (ofRank e (.ofNat r) (some sizes)).dims? = some sizes := by
  have hzero : (Size.ofNat r).equals 0 = decide (r = 0) := Size.equals_ofNat r 0
  unfold ofRank
  rw [hzero]
  subst h
  cases sizes <;> rfl

lemma maxRank_of_sized (h : List.Forall₂ (fun v ds => v.type.Sized ds) operands shapes) :
    maxRank operands = .ok (.ofNat ((shapes.map List.length).foldl max 0)) := by
  refine maxRank_eq ?_
  rw [List.forall₂_map_right_iff]
  refine h.imp fun v ds hv => ⟨hv.rank, fun dims hdims => ?_⟩
  rw [← Option.some.inj (hv.dims.symm.trans hdims), List.length_map]

lemma broadcastShape_of_sized (h : List.Forall₂ (fun v ds => v.type.Sized ds) operands shapes) :
    broadcastShape operands =
      ((shapes.map (List.map Size.whole)).foldlM broadcastDims []).map some := by
  have hdims : operands.mapM (·.type.dims?) = some (shapes.map (List.map Size.whole)) := by
    induction h with
    | nil => rfl
    | cons hv _ ih =>
      rw [List.mapM_cons, hv.dims, ih]
      rfl
  rw [broadcastShape, hdims]

lemma broadcastShape_pair (hu : u.type.Sized us) (hv : v.type.Sized vs) : broadcastShape [u, v] =
    (broadcastDims ((us.map (max 1)).map .whole) (vs.map .whole)).map some := by
  have hstart : broadcastDims [] (us.map .whole) = .ok ((us.map (max 1)).map .whole) := by
    rw [← List.map_nil, broadcastDims_eq_ok, List.reverse_nil, List.map_nil, meetReversed_nil,
      List.map_reverse]
  rw [broadcastShape_of_sized (.cons hu (.cons hv .nil))]
  simp only [List.map_cons, List.map_nil, List.foldlM_cons, List.foldlM_nil, hstart, Except.ok_bind,
    bind_pure]

lemma entrywise_pair (hop : n.operator = .add) (hin : n.inputs = [u, v])
    (hout : n.outputs.length = 1) (hpu : u.name ≠ "" ∨ u.literal.isSome)
    (hpv : v.name ≠ "" ∨ v.literal.isSome)
    (heu : u.type.element = e) (hev : v.type.element = e) (hus : u.type.Sized us)
    (hvs : v.type.Sized vs) : entrywise n =
      (broadcastDims ((us.map (max 1)).map .whole) (vs.map .whole)).map fun dims =>
        ofRank e (.ofNat (max us.length vs.length)) (some dims) := by
  have hpresent : presentOperands n = [u, v] := by
    simp [presentOperands, hin, hpu, hpv]
  have helement : entrywiseElement n.operator [u, v] = .ok e := by
    simp [entrywiseElement, hop, promoteAll, heu, hev, ElementType.promote_self, isComparison]
  have hrank : maxRank [u, v] = .ok (.ofNat (max us.length vs.length)) := by
    rw [maxRank_of_sized (.cons hus (.cons hvs .nil))]
    simp
  unfold entrywise
  rw [if_neg (by simp [hin, hout])]
  dsimp only
  rw [hpresent, helement, Except.ok_bind, hrank, Except.ok_bind,
    broadcastShape_pair hus hvs]
  cases broadcastDims ((us.map (max 1)).map .whole) (vs.map .whole) <;> rfl

end Addition

section Products

variable {n : Node} {x w y : Value} {e : ElementType} {batch : List Int} {rows : Int}
  {height width : Nat} {t : ValueType}

/-- The type of a stack of matrices of known sizes. -/
def stack (e : ElementType) (batch : List Int) (rows columns : Int) : ValueType :=
  .tensor e (.ofNat (batch.length + 2)) (some ((batch ++ [rows, columns]).map .whole))

lemma sized_stack (columns : Int) :
    (stack e batch rows columns).Sized (batch ++ [rows, columns]) := by
  refine ⟨?_, rfl⟩
  rw [List.length_append]
  rfl

lemma ofRank_stack (columns : Int) : ofRank e (.ofNat (batch.length + 2))
    (some (batch.map .whole ++ [.whole rows, .whole columns])) = stack e batch rows columns := by
  rw [ofRank_of_pos (by omega), stack, List.map_append]
  rfl

lemma stack_eq_ofRank_iff {r : Nat} {dims : List Size} (columns : Int) :
    stack e batch rows columns = ofRank e (.ofNat r) (some dims) ↔
      r = batch.length + 2 ∧ dims = (batch ++ [rows, columns]).map .whole := by
  unfold stack ofRank
  split
  · next hzero =>
    have hzero : r = 0 := of_decide_eq_true ((Size.equals_ofNat r 0).symm.trans hzero)
    refine iff_of_false (by simp) fun h => ?_
    omega
  · rw [ValueType.tensor.injEq, Option.some.injEq, Size.ofNat_inj]
    exact ⟨fun h => ⟨h.2.1.symm, h.2.2.symm⟩, fun h => ⟨rfl, h.1.symm, h.2.symm⟩⟩

lemma get_stack (k : Nat) (hk : 0 < k) (hle : k ≤ 2) (columns d : Int)
    (hd : [rows, columns][2 - k]? = some d) :
    Place.get ((batch ++ [rows, columns]).map Size.whole) (-k) = .ok (.whole d) := by
  refine get_end_map_whole hk (by simp; omega) ?_
  rw [List.length_append, List.getElem?_append_right (by simp; omega)]
  refine (congrArg _ ?_).trans hd
  simp only [List.length_cons, List.length_nil]
  omega

lemma matMul_stack (hin : n.inputs = [x, w]) (hout : n.outputs = [y])
    (hx : x.type = stack e batch rows height) (hbatch : ∀ d ∈ batch, 0 < d)
    (hw : w.type.Sized [(height : Int), width]) (he : w.type.element = e) :
    matMul n = .ok (stack e batch rows width) := by
  have hs : x.type.Sized (batch ++ [rows, (height : Int)]) := hx ▸ sized_stack _
  have hlen : (batch ++ [rows, (height : Int)]).length = batch.length + 2 := by simp
  have hleft : Place.before (batch ++ [rows, (height : Int)]) (-2) = batch := by
    have hclamp : Place.clamp (batch.length + 2) (-2) = batch.length := by
      rw [Place.clamp, if_pos (by decide)]
      omega
    rw [Place.before, hlen, hclamp, List.take_left]
  have hright : Place.before [(height : Int), width] (-2) = [] := rfl
  have hnone : FitsInto [] batch := .nil
  have hfit := (broadcastDims_eq_fst_iff hbatch).mpr hnone
  rw [List.map_nil, List.map_nil] at hfit
  have hrank : (Size.ofNat (batch.length + 2)).less 2 = .ok false := by
    rw [show (2 : Size) = .ofNat 2 from rfl, Size.less_ofNat, decide_eq_false (by omega)]
  have hrank' : (Size.ofNat [(height : Int), width].length).less 2 = .ok false := rfl
  have hinner : Place.get ((batch ++ [rows, (height : Int)]).map Size.whole) (-1) =
      .ok (.whole height) := get_stack 1 (by omega) (by omega) height height rfl
  have hrows : Place.get ((batch ++ [rows, (height : Int)]).map Size.whole) (-2) =
      .ok (.whole rows) := get_stack 2 (by omega) (by omega) height rows rfl
  have hinner' : Place.get ([(height : Int), width].map Size.whole) (-2) = .ok (.whole height) := rfl
  have hwidth : Place.get ([(height : Int), width].map Size.whole) (-1) = .ok (.whole width) := rfl
  have hex : x.type.element = e := hx ▸ rfl
  unfold matMul
  rw [hin, hout]
  dsimp only
  rw [hex, he, ElementType.promote_self, Except.ok_bind, hs.rank, hw.rank, productRank_eq,
    Except.ok_bind, hs.dims, hw.dims]
  dsimp only
  rw [hlen, hrank, hrank', Except.ok_bind, Except.ok_bind, if_neg (by decide), before_map_whole,
    before_map_whole, hleft, hright, List.map_nil, hfit, Except.ok_bind, hinner, hinner',
    Except.ok_bind, Except.ok_bind, Size.equals_whole, if_neg (by simp), hrows, hwidth,
    Except.ok_bind, Except.ok_bind, if_pos (by simp), Nat.max_eq_left (by simp)]
  exact congrArg Except.ok (ofRank_stack _)

lemma linear_stack {b : Value} (hin : n.inputs = [x, w, b])
    (hx : x.type = stack e batch rows height) (hw : w.type.Sized [(height : Int), width]) :
    linear n = .ok (stack e batch rows width) := by
  have hs : x.type.Sized (batch ++ [rows, (height : Int)]) := hx ▸ sized_stack _
  have hx0 : n.input 0 = .ok x := by simp [Node.input, hin]
  have hw1 : n.input 1 = .ok w := by simp [Node.input, hin]
  have hex : x.type.element = e := hx ▸ rfl
  have hrank : w.type.rank.equals 2 = true := by
    rw [hw.rank]
    rfl
  have hbefore : Place.before (batch ++ [rows, (height : Int)]) (-1) = batch ++ [rows] := by
    have hclamp : Place.clamp (batch.length + 2) (-1) = (batch ++ [rows]).length := by
      rw [Place.clamp, if_pos (by decide), List.length_append, List.length_singleton]
      omega
    have hsplit : batch ++ [rows, (height : Int)] = batch ++ [rows] ++ [(height : Int)] := by simp
    rw [Place.before, List.length_append, List.length_cons, List.length_singleton, hclamp, hsplit,
      List.take_left]
  have hwidth : Place.get ([(height : Int), width].map Size.whole) 1 = .ok (.whole width) := rfl
  simp only [linear, hx0, hw1, Except.ok_bind, hrank, hs.dims, hw.dims, hs.rank, hex, before_map_whole,
    hbefore, hwidth]
  rw [if_neg (by simp), List.length_append, List.map_append, List.append_assoc]
  exact congrArg Except.ok (ofRank_stack _)

end Products

/-! ## Fusion -/

section Fusion

variable {r : Registry} {raw : NodeMessage} {n add fused : Node} {x w y p b u v : Value}
  {e : ElementType} {batch us vs : List Int} {rows : Int} {height width : Nat} {c a : Literal}

lemma FitsInto.length_le {bs : List Nat} {ds : List Int} (h : FitsInto bs ds) :
    bs.length ≤ ds.length := by
  have hlen := h.length_eq
  rw [List.length_reverse, List.length_take, List.length_reverse] at hlen
  omega

/-- What fits as it is also fits once empty axes pass for axes of size one. -/
lemma FitsInto.map_max {bs : List Nat} {ds : List Int} (h : FitsInto bs ds) (hds : ∀ d ∈ ds, 0 < d) :
    FitsInto (bs.map (max 1)) ds := by
  unfold FitsInto at h ⊢
  rw [← List.map_reverse, List.length_map]
  have hpos : ∀ d ∈ ds.reverse.take bs.length, 0 < d := by
    intro d hd
    exact hds d (List.mem_reverse.mp (List.mem_of_mem_take hd))
  generalize ds.reverse.take bs.length = es at h hpos
  generalize bs.reverse = cs at h
  induction h with
  | nil => exact .nil
  | @cons b d _ _ hfits _ ih =>
    refine .cons ?_ (ih fun d hd => hpos d (List.mem_cons_of_mem _ hd))
    have hd : 0 < d := hpos d List.mem_cons_self
    unfold FitsAxis at hfits ⊢
    omega

lemma Node.resultType_eq {rule : Node → Except Error ValueType} {ys : List Value}
    (hrule : rule? n.operator = some rule) (hout : n.outputs = y :: ys) :
    n.resultType = rule n := by
  simp only [resultType, infer, typedOutputs, hrule, hout]
  cases rule n <;> rfl

lemma Node.infer_error {rule : Node → Except Error ValueType} {error : Error}
    (hrule : rule? n.operator = some rule) (h : rule n = .error error) :
    n.infer = .error error := by
  simp only [infer, typedOutputs, hrule, h]
  rfl

lemma Node.infer_ok {rule : Node → Except Error ValueType} {t : ValueType}
    (hrule : rule? n.operator = some rule) (h : rule n = .ok t) (hout : n.outputs.length = 1) :
    ∃ m, n.infer = .ok m := by
  obtain ⟨y, hy⟩ := List.length_eq_one_iff.mp hout
  simp only [infer, typedOutputs, hrule, h, hy]
  exact ⟨_, rfl⟩

lemma Node.resultType_error {error : Error} (h : n.infer = .error error) :
    n.resultType = .error error := by
  rw [resultType, h]
  rfl

lemma Node.resultTypeAfter_eq {rule : Node → Except Error ValueType} {ys : List Value}
    (hrule : rule? n.operator = some rule) (hout : n.outputs = y :: ys) :
    add.resultTypeAfter n = rule n >>= fun t => { add with
      inputs := add.inputs.map fun (v : Value) =>
        if v.name = y.name then { y with type := t } else v }.resultType := by
  simp only [resultTypeAfter, infer, typedOutputs, hrule, hout]
  cases rule n <;> rfl

/-- A sum of two operands has a given type if and only if one of them gives it its axes, and the
other is broadcast into them. -/
lemma Node.resultType_sum_iff (hop : n.operator = .add) (hin : n.inputs = [u, v])
    (hpu : u.name ≠ "" ∨ u.literal.isSome) (hpv : v.name ≠ "" ∨ v.literal.isSome)
    (heu : u.type.element = e) (hev : v.type.element = e) (hus : u.type.Sized us)
    (hvs : v.type.Sized vs) : some (stack e batch rows width) = n.resultType.toOption ↔
      n.outputs.length = 1 ∧ max us.length vs.length = batch.length + 2 ∧
        broadcastDims ((us.map (max 1)).map .whole) (vs.map .whole) =
          .ok ((batch ++ [rows, (width : Int)]).map .whole) := by
  have hrule : rule? n.operator = some entrywise := by rw [hop]; rfl
  by_cases hout : n.outputs.length = 1
  swap
  · refine iff_of_false (fun h => ?_) fun h => hout h.1
    have hthrow : entrywise n = .error (.typing (.broadcastArity n.operator)) := by
      simp [entrywise, hout]
      rfl
    simp [resultType, infer, typedOutputs, hrule, hthrow, Bind.bind, Except.bind,
      Except.toOption] at h
  obtain ⟨z, hz⟩ := List.length_eq_one_iff.mp hout
  rw [resultType_eq hrule hz, entrywise_pair hop hin hout hpu hpv heu hev hus hvs]
  cases hdims : broadcastDims ((us.map (max 1)).map .whole) (vs.map .whole) with
  | error err => simp [Except.map, Except.toOption]
  | ok dims =>
    simp only [Except.map, Except.toOption, Option.some.injEq, Except.ok.injEq, hout, true_and]
    exact stack_eq_ofRank_iff _

/-- What a product takes over is the bias of the addition after it. -/
lemma Node.Biases.layer (h : add.Biases n x w y p b e batch rows height width c a)
    (hfuse : n.fuse r (some raw) = .ok (fused, true)) (hadd : r.convert raw = .ok add) :
    n.operator = .matMul ∧ add.operator = .add ∧ fused.operator = .linear ∧
      (∃ v, fused.inputs = [x, w, v]) ∧ fused.outputs ≠ [] := by
  cases fuse_ok hfuse with
  | same _ hkept | gemm _ _ _ _ _ hkept | product _ _ hkept => cases hkept
  | biased hop _ hnext hconvert hadds _ _ hnode _ =>
    obtain rfl := Option.some.inj hnext
    obtain rfl := Except.ok.inj (hadd.symm.trans hconvert)
    subst hnode
    exact ⟨hop, hadds.operator, rfl, ⟨_, by simp [h.operands]; rfl⟩, by simp⟩

namespace Node.Biases

variable (h : add.Biases n x w y p b e batch rows height width c a)

include h

lemma sized_weight : w.type.Sized [(height : Int), width] := by
  have hsized := Literal.sized_type h.weightType
  rwa [h.weightSizes] at hsized

lemma sized_bias : b.type.Sized (a.shape.map Int.ofNat) := Literal.sized_type h.biasType

lemma positive_iff : (∀ d ∈ batch ++ [rows, (width : Int)], 0 < d) ↔ 0 < width := by
  have hbatch : ∀ d ∈ batch, 0 < d := fun d hd => h.positive d (by simp [hd])
  have hrows : 0 < rows := h.positive rows (by simp)
  constructor
  · intro hall
    have := hall width (by simp)
    omega
  · intro hwidth d hd
    simp only [List.mem_append, List.mem_cons, List.not_mem_nil, or_false] at hd
    rcases hd with hd | rfl | rfl
    · exact hbatch d hd
    · exact hrows
    · omega

lemma resultType_layer (hfuse : n.fuse r (some raw) = .ok (fused, true))
    (hadd : r.convert raw = .ok add) : fused.resultType = .ok (stack e batch rows width) := by
  obtain ⟨-, -, hlinear, ⟨v, hinputs⟩, houtputs⟩ := h.layer hfuse hadd
  obtain ⟨z, zs, hz⟩ := List.exists_cons_of_ne_nil houtputs
  rw [resultType_eq (by rw [hlinear]; rfl) hz]
  exact linear_stack hinputs h.data h.sized_weight

/-- The product is refused, or it has one output and the sum reads a stack of its rows. -/
lemma resultTypeAfter_cases (hop : n.operator = .matMul) :
    (n.outputs.length ≠ 1 ∧ add.resultTypeAfter n = .error (.typing .matMulArity)) ∨
      n.outputs.length = 1 ∧ add.resultTypeAfter n = { add with
        inputs := add.inputs.map fun (v : Value) =>
          if v.name = y.name then { y with type := stack e batch rows width } else v }.resultType := by
  obtain ⟨ys, hy⟩ := Node.output_zero_eq_ok.mp h.output
  have hrule : rule? n.operator = some matMul := by rw [hop]; rfl
  rw [resultTypeAfter_eq hrule hy]
  by_cases hone : n.outputs.length = 1
  · obtain rfl : ys = [] := by simpa [hy] using hone
    have hbatch : ∀ d ∈ batch, 0 < d := fun d hd => h.positive d (by simp [hd])
    rw [matMul_stack h.operands hy h.data hbatch h.sized_weight h.weightElement]
    exact .inr ⟨hone, rfl⟩
  · have hthrow : matMul n = .error (.typing .matMulArity) := by
      unfold matMul
      split
      · next houts => exact absurd (by simp [houts]) hone
      · rfl
    rw [hthrow]
    exact .inl ⟨hone, rfl⟩

variable {z : Value} (hz : z.type = stack e batch rows width) (hname : z.name ≠ "")

include hz hname

/-- A product to which the bias is added keeps its type if and only if the bias fits into it. -/
lemma resultType_first_iff (hop : add.operator = .add) :
    some (stack e batch rows width) = { add with inputs := [z, b] }.resultType.toOption ↔
      add.outputs.length = 1 ∧ 0 < width ∧ FitsInto a.shape (batch ++ [rows, (width : Int)]) := by
  have hsized : z.type.Sized (batch ++ [rows, (width : Int)]) := hz ▸ sized_stack width
  have helement : z.type.element = e := hz ▸ rfl
  have hlen : (batch ++ [rows, (width : Int)]).length = batch.length + 2 := by simp
  rw [resultType_sum_iff (n := { add with inputs := [z, b] }) hop rfl (.inl hname)
    (.inr (by simp [h.bias])) helement h.biasElement hsized h.sized_bias, broadcast_first_iff,
    h.positive_iff, hlen, List.length_map]
  constructor
  · rintro ⟨hout, -, hwidth, hfits⟩
    exact ⟨hout, hwidth, hfits⟩
  · rintro ⟨hout, hwidth, hfits⟩
    have hle := hfits.length_le
    exact ⟨hout, by omega, hwidth, hfits⟩

/-- If it is added to the bias, empty axes of the bias pass for axes of size one. -/
lemma resultType_last_iff (hop : add.operator = .add) :
    some (stack e batch rows width) = { add with inputs := [b, z] }.resultType.toOption ↔
      add.outputs.length = 1 ∧ 0 < width ∧
        FitsInto (a.shape.map (max 1)) (batch ++ [rows, (width : Int)]) := by
  have hsized : z.type.Sized (batch ++ [rows, (width : Int)]) := hz ▸ sized_stack width
  have helement : z.type.element = e := hz ▸ rfl
  have hlen : (batch ++ [rows, (width : Int)]).length = batch.length + 2 := by simp
  rw [resultType_sum_iff (n := { add with inputs := [b, z] }) hop rfl (.inr (by simp [h.bias]))
    (.inl hname) h.biasElement helement h.sized_bias hsized, broadcast_last_iff, h.positive_iff,
    hlen, List.length_map]
  constructor
  · rintro ⟨hout, -, hwidth, hfits⟩
    exact ⟨hout, hwidth, hfits⟩
  · rintro ⟨hout, hwidth, hfits⟩
    have hle := hfits.length_le
    rw [List.length_map] at hle
    exact ⟨hout, by omega, hwidth, hfits⟩

end Node.Biases

/-- Fusion keeps the type of a product with a bias if and only if product and addition have one
output each, the product is not empty and the bias is broadcast into it. Before the product, an
empty axis of the bias passes for one of size one. -/
theorem Node.fuse_resultType_iff (hfuse : n.fuse r (some raw) = .ok (fused, true))
    (hadd : r.convert raw = .ok add)
    (h : add.Biases n x w y p b e batch rows height width c a) :
    fused.resultType.toOption = (add.resultTypeAfter n).toOption ↔
      n.outputs.length = 1 ∧ add.outputs.length = 1 ∧ 0 < width ∧
        (FitsInto a.shape (batch ++ [rows, (width : Int)]) ∨
          add.inputs = [b, p] ∧ FitsInto (a.shape.map (max 1)) (batch ++ [rows, (width : Int)])) := by
  obtain ⟨hop, haddop, -⟩ := h.layer hfuse hadd
  rw [h.resultType_layer hfuse hadd]
  rcases h.resultTypeAfter_cases hop with ⟨hone, hthrow⟩ | ⟨hone, hafter⟩
  · rw [hthrow]
    refine iff_of_false (fun hagree => ?_) fun hfits => hone hfits.1
    cases hagree
  rw [hafter]
  let z : Value := { y with type := stack e batch rows width }
  rcases h.summands with hin | hin
  · have hne : [p, b] ≠ [b, p] := by
      intro heq
      have hpb : p = b := by simpa using congrArg List.head? heq
      exact h.apart (hpb ▸ h.product)
    have hread : [p, b].map (fun v : Value => if v.name = y.name then z else v) = [z, b] := by
      simp [h.product, h.apart]
    rw [hin, hread]
    refine (h.resultType_first_iff (z := z) rfl h.named haddop).trans ?_
    simp only [hone, hne, false_and, or_false, true_and]
  · have hread : [b, p].map (fun v : Value => if v.name = y.name then z else v) = [b, z] := by
      simp [h.product, h.apart]
    rw [hin, hread]
    refine (h.resultType_last_iff (z := z) rfl h.named haddop).trans ?_
    simp only [hone, true_and]
    refine and_congr_right fun _ => and_congr_right fun hwidth => ⟨.inr, ?_⟩
    rintro (hfits | hfits)
    · exact hfits.map_max (h.positive_iff.mpr hwidth)
    · exact hfits

end Fusion

def zeros (shape : List Nat) : Literal :=
  ⟨.float .binary32, shape, List.replicate shape.prod (.float ⟨0⟩), by simp⟩

/-- An operand that is an array of zeros. -/
def zeroOperand (name : String) (shape : List Nat) : Value where
  name
  type := .tensor .float32 (.ofNat shape.length) (some (shape.map Size.ofNat))
  literal := some (zeros shape)

def twoRows : Value := { name := "x", type := stack .float32 [] 2 4 }

/-- The product of two rows with the weights of the layer. -/
def rowsTimesWeights : Node where
  operator := .matMul
  name := ""
  inputs := [twoRows, zeroOperand "w" [4, 3]]
  outputs := [{ name := "p" }]

def plusBias : NodeMessage where
  operator := "Add"
  inputs := ["p", "b"]
  outputs := ["y"]

/-- The registry of a file whose bias has the given shape. -/
def biasArrays (shape : List Nat) : Registry where
  initializers := Table.insert ∅ "b" (zeroOperand "b" shape)

/-- The addition of a bias of the given shape. -/
def plusZeros (shape : List Nat) : Node where
  operator := .add
  name := ""
  inputs := [{ name := "p" }, zeroOperand "b" shape]
  outputs := [{ name := "y" }]

lemma biases_plusZeros {shape : List Nat} (hne : shape ≠ []) :
    (plusZeros shape).Biases rowsTimesWeights twoRows (zeroOperand "w" [4, 3]) { name := "p" }
      { name := "p" } (zeroOperand "b" shape) .float32 [] 2 4 3 (zeros [4, 3]) (zeros shape) where
  operands := rfl
  output := rfl
  named := by decide
  summands := .inl rfl
  product := rfl
  apart := by simp [zeroOperand]
  data := rfl
  positive := by decide
  weight := rfl
  weightType := rfl
  weightSizes := rfl
  weightElement := rfl
  bias := rfl
  biasType := Literal.type_eq_ok.mpr ⟨.float32, rfl, (if_neg hne).symm⟩
  biasElement := rfl

theorem Node.fuse_resultType_iff_row : ∃ fused,
    rowsTimesWeights.fuse (biasArrays [3]) (some plusBias) = .ok (fused, true) ∧
    (biasArrays [3]).convert plusBias = .ok (plusZeros [3]) ∧
    fused.resultType.toOption = ((plusZeros [3]).resultTypeAfter rowsTimesWeights).toOption := by
  obtain ⟨⟨fused, taken⟩, hfuse, rfl⟩ : ∃ f,
      rowsTimesWeights.fuse (biasArrays [3]) (some plusBias) = .ok f ∧ f.2 = true :=
    Except.exists_ok (by decide +kernel)
  have hadd : (biasArrays [3]).convert plusBias = .ok (plusZeros [3]) := by decide +kernel
  refine ⟨fused, hfuse, hadd, ?_⟩
  apply (Node.fuse_resultType_iff hfuse hadd (biases_plusZeros (by decide))).mpr
  exact ⟨rfl, rfl, by decide, .inl (by decide)⟩

/-- The layer takes over a bias of five entries as well, which cannot be added to rows of three. -/
theorem misfit_bias_lost : ∃ fused,
    rowsTimesWeights.fuse (biasArrays [5]) (some plusBias) = .ok (fused, true) ∧
    (biasArrays [5]).convert plusBias = .ok (plusZeros [5]) ∧
    (plusZeros [5]).Biases rowsTimesWeights twoRows (zeroOperand "w" [4, 3]) { name := "p" }
      { name := "p" } (zeroOperand "b" [5]) .float32 [] 2 4 3 (zeros [4, 3]) (zeros [5]) ∧
    fused.resultType = .ok (stack .float32 [] 2 3) ∧
    (plusZeros [5]).resultTypeAfter rowsTimesWeights =
      .error (.typing (.broadcastMismatch "[2, 3]" "[5]")) := by
  obtain ⟨⟨fused, taken⟩, hfuse, rfl, htype⟩ : ∃ f,
      rowsTimesWeights.fuse (biasArrays [5]) (some plusBias) = .ok f ∧ f.2 = true ∧
        f.1.resultType = .ok (stack .float32 [] 2 3) :=
    Except.exists_ok (by decide +kernel)
  refine ⟨fused, hfuse, ?_, biases_plusZeros (by decide), htype, ?_⟩
  · decide +kernel
  · decide +kernel

end TensorGraph
