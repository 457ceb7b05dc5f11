import Mathlib.Data.Set.Card
import TensorGraph.Proofs.FusedTypes
import TensorGraph.Proofs.Safety.Typing

/-!
# Counts of window placements

A convolution or a pool moves a window along each spatial axis. Each spatial size of the result is
the number of places at which the window lies within the padded axis, or, where the padding is
chosen so that the strides cover the axis, the least number of strides that do
(`Node.Windowed.dims_placements`).
-/

namespace TensorGraph

open Typing ValueType

/-- A window along an axis of some size, which is padded before and after. -/
structure Window where
  size : Int
  kernel : Int
  stride : Int
  dilation : Int
  before : Int
  after : Int

namespace Window

/-- The strides after which the window lies within the padded axis. -/
def placements (w : Window) : Set Nat :=
  {j | j * w.stride + w.dilation * (w.kernel - 1) + 1 ≤ w.size + w.before + w.after}

/-- The window moves, and lies within the padded axis before it does. -/
structure Fits (w : Window) : Prop where
  stride : 1 ≤ w.stride
  first : w.dilation * (w.kernel - 1) + 1 ≤ w.size + w.before + w.after

/-- How far the window can move within the padded axis. -/
def room (w : Window) : Int := w.size + w.before + w.after - w.dilation * (w.kernel - 1) - 1

/-- How typing counts the placements. -/
def count (w : Window) : Int := w.room.fdiv w.stride + 1

/-- How typing counts the strides that cover the axis. -/
def cover (w : Window) : Int := -(-w.size).fdiv w.stride

end Window

/-- Padding as an attribute lists it: once for both ends of the axes, or for the ends before them
and then for those after. A list of another length, such as the empty one, is no padding. -/
inductive PadsEnds (before after : List Int) : List Int → Prop where
  | both (hsame : after = before) : PadsEnds before after before
  | ends : PadsEnds before after (before ++ after)
  | none {pads : List Int} (hboth : pads.length ≠ before.length)
    (hends : pads.length ≠ 2 * before.length) (hbefore : ∀ p ∈ before, p = 0)
    (hafter : ∀ p ∈ after, p = 0) : PadsEnds before after pads

namespace Node

/-- The attributes of the node list the strides, the dilations and the padding of the windows. -/
structure MovesWindows (n : Node) (ws : List Window) : Prop where
  strides : n.intList "strides" (List.replicate ws.length 1) = .ok (ws.map Window.stride)
  dilations : n.intList "dilations" (List.replicate ws.length 1) = .ok (ws.map Window.dilation)
  pads : ∃ pads, n.intList "pads" [] = .ok pads ∧
    PadsEnds (ws.map Window.before) (ws.map Window.after) pads

/-- The node reads channels through windows and writes others. A convolution writes one for each
filter of its weights; their sizes after the second serve as kernel if none is given, and do not
matter otherwise. A pool keeps the channels. -/
inductive FiltersWith (n : Node) (ws : List Window) (channels : Int) : Int → Prop where
  | conv {v : Value} {filters : Int} {sizes : List Int}
    (hop : n.operator ∈ Operator.convolutions) (hv : n.input 1 = .ok v)
    (hdims : v.type.dims? = some ((filters :: sizes).map .whole))
    (hkernel : n.intList "kernel_shape" (sizes.drop 1) = .ok (ws.map Window.kernel)) :
    FiltersWith n ws channels filters
  | pool (hop : n.operator ∈ Operator.pools)
    (hkernel : n.intList "kernel_shape" [] = .ok (ws.map Window.kernel)) :
    FiltersWith n ws channels channels

/-- The node moves windows over the spatial axes of its first operand, one over each. -/
structure Windowed (n : Node) (batch channels filters : Int) (ws : List Window) : Prop where
  data : ∃ x, n.input 0 = .ok x ∧ x.type.Sized (batch :: channels :: ws.map Window.size)
  moves : n.MovesWindows ws
  filters : n.FiltersWith ws channels filters

/-- The kind of the node is for `k` spatial axes, or for any number of them. -/
def KindFits (n : Node) (k : Nat) : Prop := ∀ j, n.operator.spatialAxes? = some j → j = k

/-- The padding is chosen so that the strides cover each axis. -/
def PadsToCover (n : Node) : Prop :=
  ∃ a, n.attribute? "auto_pad" = some a ∧
    (a.isText "SAME_UPPER" = .ok true ∨ a.isText "SAME_LOWER" = .ok true)

end Node

variable {n : Node} {t : ValueType} {x v : Value} {w : Window} {ws : List Window}
  {batch channels filters : Int} {pads sizes : List Int}

namespace Window

lemma Fits.placements_eq (h : w.Fits) : w.placements = Finset.range w.count.toNat := by
  have hpos : 0 < w.stride := h.stride
  ext j
  rw [placements, Set.mem_ofPred_eq, Finset.coe_range, Set.mem_Iio, count,
    Int.fdiv_eq_ediv_of_nonneg _ hpos.le]
  have hle : (j : Int) ≤ w.room / w.stride ↔ j * w.stride ≤ w.room := Int.le_ediv_iff_mul_le hpos
  have hroom : w.room = w.size + w.before + w.after - w.dilation * (w.kernel - 1) - 1 := rfl
  omega

lemma Fits.count_nonneg (h : w.Fits) : 0 ≤ w.count := by
  have hpos : 0 < w.stride := h.stride
  have hfirst := h.first
  have hroom : 0 ≤ w.room := by
    rw [room]
    omega
  have hmoves : 0 ≤ w.room / w.stride := Int.ediv_nonneg hroom hpos.le
  rw [count, Int.fdiv_eq_ediv_of_nonneg _ hpos.le]
  omega

/-- Typing counts the placements of a window. -/
lemma Fits.ncard_placements (h : w.Fits) : (w.placements.ncard : Int) = w.count := by
  rw [h.placements_eq, Set.ncard_coe_finset, Finset.card_range, Int.toNat_of_nonneg h.count_nonneg]

/-- Typing counts the least strides that cover an axis. -/
lemma isLeast_cover (h : 1 ≤ w.stride) : IsLeast {m : Int | w.size ≤ m * w.stride} w.cover := by
  have hpos : 0 < w.stride := h
  have hiff : ∀ m, w.size ≤ m * w.stride ↔ w.cover ≤ m := by
    intro m
    have hle : -m ≤ -w.size / w.stride ↔ -m * w.stride ≤ -w.size := Int.le_ediv_iff_mul_le hpos
    rw [Int.neg_mul] at hle
    rw [cover, Int.fdiv_eq_ediv_of_nonneg _ hpos.le]
    omega
  exact ⟨(hiff _).mpr (Int.le_refl _), fun m hm => (hiff m).mp hm⟩

lemma windowCount_eq (h : w.stride ≠ 0) : windowCount (.whole w.size) (.whole w.kernel) w.stride
    w.dilation w.before w.after = .ok (.whole w.count) := by
  have hsub : ∀ k : Int, Size.sub (.whole k) 1 = .ok (.whole (k - 1)) := fun _ => rfl
  simp only [windowCount, Size.add_whole, Size.sub_whole, Size.mul_whole, hsub, Except.ok_bind,
    floorDiv_whole h]
  rfl

lemma coverCount_eq (h : w.stride ≠ 0) :
    coverCount (.whole w.size) w.stride = .ok (.whole w.cover) := by
  rw [coverCount, Size.neg_whole, Except.ok_bind, floorDiv_whole h]
  rfl

end Window

/-! ## All axes -/

lemma splitPads_of_padsEnds {before after : List Int} {axes : Nat} (h : PadsEnds before after pads)
    (haxes : 0 < axes) (hbefore : before.length = axes) (hafter : after.length = axes) :
    splitPads pads axes = (before, after) := by
  cases h with
  | both hsame => rw [splitPads, if_neg (by omega), if_pos hbefore, hsame]
  | ends =>
    have hlength : (before ++ after).length = 2 * axes := by
      rw [List.length_append]
      omega
    rw [splitPads, if_pos hlength, List.take_left' hbefore, List.drop_left' hbefore]
  | none hboth hends hzero hzero' =>
    rw [hbefore] at hboth hends
    rw [splitPads, if_neg hends, if_neg hboth, List.eq_replicate_iff.mpr ⟨hbefore, hzero⟩,
      List.eq_replicate_iff.mpr ⟨hafter, hzero'⟩]

lemma Place.get_ofNat {α : Type} {xs : List α} {i : Nat} (hi : i < xs.length) :
    Place.get xs i = .ok xs[i] := by
  simp only [Place.get]
  rw [if_neg (by omega), if_neg (by omega), Int.toNat_natCast, List.getElem?_eq_getElem hi]

/-- The spatial sizes come after those of the batch and of the channels. -/
lemma onward_sizes (hne : ws ≠ []) :
    Place.onward ((batch :: channels :: ws.map Window.size).map Size.whole) (-ws.length) =
      (ws.map Window.size).map .whole := by
  have hpos : 0 < ws.length := List.length_pos_of_ne_nil hne
  have hclamp : Place.clamp (ws.length + 2) (-ws.length) = 2 := by
    rw [Place.clamp, if_pos (by omega)]
    omega
  have hlength : ((batch :: channels :: ws.map Window.size).map Size.whole).length =
      ws.length + 2 := by simp
  rw [Place.onward, hlength, hclamp]
  rfl

/-- Steps for the places of a list, one after the other, are steps for its entries. -/
lemma mapM_range {α β : Type} {f : Nat → Except Error β} {g : α → β} {xs : List α}
    (h : ∀ (i : Nat) (hi : i < xs.length), f i = .ok (g xs[i])) :
    (List.range xs.length).mapM f = .ok (xs.map g) := by
  induction xs generalizing f with
  | nil => rfl
  | cons a xs ih =>
    have hfirst : f 0 = .ok (g a) := h 0 (Nat.succ_pos _)
    have hrest : (List.range xs.length).mapM (f ∘ Nat.succ) = .ok (xs.map g) :=
      ih fun i hi => h (i + 1) (Nat.succ_lt_succ hi)
    rw [List.length_cons, List.range_succ_eq_map, List.mapM_cons, hfirst, Except.ok_bind,
      List.mapM_map, hrest]
    rfl

namespace Node

lemma coversAxes_iff {covers : Bool} (h : coversAxes n = .ok covers) :
    covers = true ↔ n.PadsToCover := by
  unfold coversAxes at h
  unfold PadsToCover
  cases ha : n.attribute? "auto_pad" with
  | none =>
    rw [ha] at h
    simp [← Except.ok.inj h]
  | some a =>
    rw [ha] at h
    obtain ⟨upper, hupper, h⟩ := Except.bind_eq_ok.mp h
    simp only [Option.some.injEq, exists_eq_left', hupper, Except.ok.injEq]
    cases upper with
    | true => simp [← Except.pure_eq_ok.mp h]
    | false =>
      rw [if_neg Bool.false_ne_true] at h
      simp [h]

namespace MovesWindows

/-- Where the strides need not cover the axes, the placements of each window are counted. -/
lemma spatialDims_counts (h : n.MovesWindows ws) (hne : ws ≠ []) (hmoves : ∀ w ∈ ws, w.stride ≠ 0)
    (hcovers : coversAxes n = .ok false) :
    spatialDims n ((batch :: channels :: ws.map Window.size).map .whole)
      ((ws.map Window.kernel).map .whole) = .ok ((ws.map Window.count).map .whole) := by
  obtain ⟨pads, hpads, hlists⟩ := h.pads
  have hlength : ((ws.map Window.kernel).map Size.whole).length = ws.length := by simp
  have hpos : 0 < ws.length := List.length_pos_of_ne_nil hne
  have hsplit := splitPads_of_padsEnds hlists hpos (List.length_map _) (List.length_map _)
  simp only [spatialDims, hlength, h.strides, h.dilations, hpads, hsplit, hcovers, Except.ok_bind,
    if_neg hpos.ne', onward_sizes hne, Bool.false_eq_true, if_false]
  rw [List.map_map (f := Window.count)]
  refine mapM_range fun i hi => ?_
  simp only [Place.get_ofNat, List.length_map, hi, List.getElem_map, Except.ok_bind,
    Function.comp_apply]
  exact Window.windowCount_eq (hmoves _ (List.getElem_mem hi))

lemma spatialDims_covers (h : n.MovesWindows ws) (hne : ws ≠ []) (hmoves : ∀ w ∈ ws, w.stride ≠ 0)
    (hcovers : coversAxes n = .ok true) :
    spatialDims n ((batch :: channels :: ws.map Window.size).map .whole)
      ((ws.map Window.kernel).map .whole) = .ok ((ws.map Window.cover).map .whole) := by
  obtain ⟨pads, hpads, -⟩ := h.pads
  have hlength : ((ws.map Window.kernel).map Size.whole).length = ws.length := by simp
  have hne' : ws.length ≠ 0 := Nat.ne_of_gt (List.length_pos_of_ne_nil hne)
  simp only [spatialDims, hlength, h.strides, h.dilations, hpads, hcovers, Except.ok_bind,
    if_neg hne', onward_sizes hne, if_true]
  rw [List.map_map, List.zip_map', List.mapM_map, List.map_map]
  exact Except.mapM_eq_ok_map fun w hw => Window.coverCount_eq (hmoves w hw)

end MovesWindows

end Node

lemma kernelSizes_of_intList {kernel : List Int}
    (h : n.intList "kernel_shape" sizes = .ok kernel) :
    kernelSizes n (sizes.map .whole) = .ok (kernel.map .whole) := by
  unfold Node.intList at h
  unfold kernelSizes Node.intList
  cases hshape : n.attribute? "kernel_shape" with
  | none =>
    rw [hshape] at h
    rw [Except.ok.inj h]
  | some a =>
    rw [hshape] at h
    dsimp only at h ⊢
    rw [h]
    rfl

lemma spatialCount_ofNat (o : Operator) (k : Nat) :
    spatialCount o (.ofNat (k + 2)) = .ok (.ofNat (o.spatialAxes?.getD k)) := by
  unfold spatialCount
  cases o.spatialAxes? with
  | none => exact congrArg (Except.ok ∘ Size.whole) (by simp)
  | some j => rfl

/-- A convolution of known sizes is typed if it has one output, its kind fits the rank of the data,
the channels fall into the groups, and the spatial sizes come out. -/
lemma conv_eq_ok_iff {k : Nat} {b c f : Size} {ds vs : List Size} (hx : n.input 0 = .ok x)
    (hv : n.input 1 = .ok v) (hrank : x.type.rank = .ofNat (k + 2))
    (hds : x.type.dims? = some (b :: c :: ds)) (hvs : v.type.dims? = some (f :: vs)) :
    conv n = .ok t ↔ (∃ y, n.outputs = [y]) ∧ n.KindFits k ∧ groupsDivide n c = .ok true ∧
      ∃ kernel spatial, kernelSizes n (vs.drop 1) = .ok kernel ∧
        spatialDims n (b :: c :: ds) kernel = .ok spatial ∧
        t = .tensor x.type.element (.ofNat (k + 2)) (some (b :: f :: spatial)) := by
  obtain ⟨us, hin⟩ := Node.inputs_eq_cons_cons hx hv
  have hexpected : Size.add (.ofNat (n.operator.spatialAxes?.getD k)) 2 =
      .ok (.ofNat (n.operator.spatialAxes?.getD k + 2)) := rfl
  have hkind : (Size.ofNat (k + 2)).equals (.ofNat (n.operator.spatialAxes?.getD k + 2)) = true ↔
      n.KindFits k := by
    rw [Size.equals_ofNat, decide_eq_true_iff, Node.KindFits]
    cases n.operator.spatialAxes? with
    | none => simp
    | some j => simp [eq_comm]
  have hfirst : Place.get (b :: c :: ds) 0 = .ok b := rfl
  have hsecond : Place.get (b :: c :: ds) 1 = .ok c := rfl
  have hfilters : Place.get (f :: vs) 0 = .ok f := rfl
  have htensor : ∀ dims, ofRank x.type.element (.ofNat (k + 2)) dims =
      .tensor x.type.element (.ofNat (k + 2)) dims := ofRank_of_pos (Nat.succ_pos _)
  unfold conv
  rw [hin]
  match hout : n.outputs with
  | [] => simp
  | y :: y' :: ys => simp
  | [y] =>
    simp only [hrank, hds, hvs, spatialCount_ofNat, hexpected, Except.ok_bind, hfirst, hsecond,
      hfilters, htensor]
    rw [← hkind]
    cases (Size.ofNat (k + 2)).equals (.ofNat (n.operator.spatialAxes?.getD k + 2)) with
    | false => exact iff_of_false (fun h => by cases h) fun h => Bool.false_ne_true h.2.1
    | true =>
      rw [if_neg (by decide), Except.bind_eq_ok]
      constructor
      · rintro ⟨divides, hdivides, h⟩
        cases divides with
        | false => cases h
        | true =>
          rw [if_neg (by decide)] at h
          simp only [Except.bind_eq_ok, Except.pure_eq_ok] at h
          obtain ⟨kernel, hkernel, spatial, hspatial, rfl⟩ := h
          exact ⟨⟨y, rfl⟩, rfl, hdivides, kernel, spatial, hkernel, hspatial, rfl⟩
      · rintro ⟨-, -, hdivides, kernel, spatial, hkernel, hspatial, rfl⟩
        refine ⟨true, hdivides, ?_⟩
        rw [if_neg (by decide), List.drop_succ_cons, hkernel, Except.ok_bind, hspatial]
        rfl

namespace Node

lemma rule_of_resultType {rule : Node → Except Error ValueType}
    (hrule : rule? n.operator = some rule) (h : n.resultType = .ok t) : rule n = .ok t := by
  cases hout : n.outputs with
  | nil =>
    simp only [resultType, infer, typedOutputs, hrule, hout] at h
    cases hr : rule n with
    | error => rw [hr] at h; cases h
    | ok => rw [hr] at h; cases h
  | cons y ys => rw [← h, resultType_eq hrule hout]

/-- The first two sizes of the result are those of the batch and of the channels that are written;
after them come the spatial ones. -/
lemma Windowed.exists_spatialDims (h : n.Windowed batch channels filters ws)
    (ht : n.resultType = .ok t) : ∃ spatial,
      spatialDims n ((batch :: channels :: ws.map Window.size).map .whole)
        ((ws.map Window.kernel).map .whole) = .ok spatial ∧
      (spatial.length = ws.length →
        t.dims? = some (.whole batch :: .whole filters :: spatial)) := by
  obtain ⟨x, hx, hs⟩ := h.data
  have hrank : x.type.rank = .ofNat (ws.length + 2) := by
    rw [hs.rank]
    simp
  cases h.filters with
  | @conv v filters sizes hop hv hdims hkernel =>
    obtain ⟨-, -, -, kernel, spatial, hkernel', hspatial, rfl⟩ :=
      (conv_eq_ok_iff hx hv hrank hs.dims hdims).mp (rule_of_resultType (rule?_convolutions hop) ht)
    rw [← List.map_drop] at hkernel'
    obtain rfl := Except.ok.inj ((kernelSizes_of_intList hkernel).symm.trans hkernel')
    exact ⟨spatial, hspatial, fun _ => rfl⟩
  | pool hop hkernel =>
    obtain ⟨kernel, spatial, hkernel', -, -, hspatial, rfl⟩ :=
      pool_eq_append hx hs.dims (rule_of_resultType (rule?_pools hop) ht)
    obtain rfl := Except.ok.inj (hkernel.symm.trans hkernel')
    refine ⟨spatial, hspatial, fun hlength => dims?_ofRank_of_length ?_⟩
    simp [hlength]

/-- A convolution or a pool that is typed keeps the batch, and writes the channels of its filters or
those of its operand. Along each spatial axis it counts the placements of the window, or, where the
padding is chosen for that, the least strides that cover the axis. -/
theorem Windowed.dims_placements (h : n.Windowed batch channels filters ws) (hne : ws ≠ [])
    (hfits : ∀ w ∈ ws, w.Fits) (ht : n.resultType = .ok t) : ∃ sizes : List Int,
      t.dims? = some ((batch :: filters :: sizes).map .whole) ∧
      (¬ n.PadsToCover → List.Forall₂ (fun w d => (w.placements.ncard : Int) = d) ws sizes) ∧
      (n.PadsToCover →
        List.Forall₂ (fun w d => IsLeast {m : Int | w.size ≤ m * w.stride} d) ws sizes) := by
  obtain ⟨spatial, hspatial, hdims⟩ := h.exists_spatialDims ht
  have hmoves : ∀ w ∈ ws, w.stride ≠ 0 := by
    intro w hw
    have hstride := (hfits w hw).stride
    omega
  obtain ⟨covers, hcovers⟩ : ∃ covers, coversAxes n = .ok covers := by
    obtain ⟨hcovers, -⟩ | ⟨_, hcovers, -⟩ := length_spatialDims hspatial
    · exact ⟨false, hcovers⟩
    · exact ⟨true, hcovers⟩
  have hcover := coversAxes_iff hcovers
  cases covers with
  | true =>
    have hyes : n.PadsToCover := hcover.mp rfl
    rw [h.moves.spatialDims_covers hne hmoves hcovers] at hspatial
    obtain rfl := Except.ok.inj hspatial
    refine ⟨ws.map Window.cover, hdims (by simp), fun hno => absurd hyes hno, fun _ => ?_⟩
    rw [List.forall₂_map_right_iff, List.forall₂_same]
    exact fun w hw => Window.isLeast_cover (hfits w hw).stride
  | false =>
    have hno : ¬ n.PadsToCover := fun hyes => Bool.false_ne_true (hcover.mpr hyes)
    rw [h.moves.spatialDims_counts hne hmoves hcovers] at hspatial
    obtain rfl := Except.ok.inj hspatial
    refine ⟨ws.map Window.count, hdims (by simp), fun _ => ?_, fun hyes => absurd hyes hno⟩
    rw [List.forall₂_map_right_iff, List.forall₂_same]
    exact fun w hw => (hfits w hw).ncard_placements

end Node

/-- Windows of three entries, with stride two, and of two entries that stand apart. -/
def slidWindows : List Window :=
  [{ size := 7, kernel := 3, stride := 2, dilation := 1, before := 1, after := 1 },
    { size := 5, kernel := 2, stride := 1, dilation := 2, before := 0, after := 2 }]

/-- A convolution that moves the windows over an image. -/
def slidConvolution : Node where
  operator := .conv2d
  name := "slid"
  inputs := [{ name := "x", type := .tensor .float32 4 (some [1, 3, 7, 5]) },
    { name := "w", type := .tensor .float32 4 (some [8, 3, 3, 2]) }]
  outputs := [{ name := "y" }]
  attributes := ((Table.insert ∅ "strides" (.ints [2, 1])).insert "dilations" (.ints [1, 2])).insert
    "pads" (.ints [1, 0, 1, 2])

theorem Node.dims_slidConvolution : ∃ sizes : List Int,
    (ValueType.tensor .float32 4 (some [1, 8, 4, 5])).dims? = some ((1 :: 8 :: sizes).map .whole) ∧
      List.Forall₂ (fun w d => (w.placements.ncard : Int) = d) slidWindows sizes := by
  have h : slidConvolution.Windowed 1 3 8 slidWindows := by
    refine ⟨⟨_, rfl, rfl, rfl⟩, ⟨rfl, rfl, _, rfl, .ends⟩, ?_⟩
    exact .conv (by decide) rfl (rfl : _ = some ([8, 3, 3, 2].map Size.whole)) rfl
  have hfits : ∀ w ∈ slidWindows, w.Fits := by
    simp only [slidWindows, List.forall_mem_cons, List.not_mem_nil]
    exact ⟨⟨by decide, by decide⟩, ⟨by decide, by decide⟩, by simp⟩
  have hcover : ¬ slidConvolution.PadsToCover := by
    rintro ⟨a, ha, -⟩
    cases ha
  obtain ⟨sizes, hdims, hcounts, -⟩ := h.dims_placements (List.cons_ne_nil _ _) hfits rfl
  exact ⟨sizes, hdims, hcounts hcover⟩

end TensorGraph
