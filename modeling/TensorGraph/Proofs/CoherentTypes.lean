import TensorGraph.Proofs.CountedAxes
import TensorGraph.Proofs.DroppedAxes

/-!
# Coherent types

Typing gives the outputs of a node coherent types, if its operands have such types and the places,
windows and counts that the node names fit the rank of its operand (`Node.infer_countsAxes_iff`).
-/

namespace TensorGraph

open Typing ValueType

namespace Operator

def reductions : List Operator :=
  [.reduceMax, .reduceMean, .reduceMin, .reduceProd, .reduceSum, .argMax]

def convolutions : List Operator := [.conv, .conv1d, .conv2d, .conv3d]

def transposedConvolutions : List Operator :=
  [.convTranspose, .convTranspose1d, .convTranspose2d, .convTranspose3d]

def pools : List Operator :=
  [.maxPool, .maxPool1d, .maxPool2d, .averagePool, .averagePool1d, .averagePool2d]

end Operator

namespace Node

variable (n : Node)

/-- The node drops the axes of `x` at the given places. -/
inductive Drops (x : Value) (places : List Size) : Prop where
  | squeezed {axes : List Int} (hop : n.operator = .squeeze) (hx : n.input 0 = .ok x)
    (haxes : n.integers? 1 "axes" = .ok (some axes))
    (hplaces : distinctPlaces x.type.rank axes = .ok places)
  | reduced (hop : n.operator ∈ Operator.reductions) (hx : n.input 0 = .ok x)
    (hplaces : reducedPlaces n x.type.rank = .ok places)
    (hkeep : n.flag "keepdims" true = .ok false)

/-- The node slides a window with this many sizes over `x`, all of whose sizes are known. -/
inductive Slides (x : Value) (axes : Nat) : Prop where
  | conv {w : Value} {ds kernel : List Size} (hop : n.operator ∈ Operator.convolutions)
    (hx : n.input 0 = .ok x) (hw : n.input 1 = .ok w) (hds : w.type.dims? = some ds)
    (hkernel : kernelSizes n (ds.drop 2) = .ok kernel) (haxes : kernel.length = axes)
  | pool {kernel : List Int} (hop : n.operator ∈ Operator.pools) (hx : n.input 0 = .ok x)
    (hkernel : n.intList "kernel_shape" [] = .ok kernel) (haxes : kernel.length = axes)

/-- The length of an operand says what the rank of the result is. -/
inductive RankAtRun (rank : Size) : Prop where
  | reshape {v : Value} (hop : n.operator = .reshape) (htarget : n.integers? 1 "shape" = .ok none)
    (hv : n.input 1 = .ok v) (hlength : leadingDim? v.type = some rank)
  | fill {v : Value} (hop : n.operator = .constantOfShape) (hv : n.input 0 = .ok v)
    (hliteral : v.literal = none) (hlength : leadingDim? v.type = some rank)
  | unsqueeze {x v : Value} {count : Size} (hop : n.operator = .unsqueeze)
    (haxes : n.integers? 1 "axes" = .ok none) (hx : n.input 0 = .ok x) (hv : n.input 1 = .ok v)
    (hlength : leadingDim? v.type = some count) (hrank : x.type.rank.add count = .ok rank)

/-- What the node says of the axes does not fit the rank of its operand, and typing does not look.
Where a result without axes comes out, it is taken for a scalar, whatever has been said. -/
inductive Misfit : Prop where
  /-- Axes are dropped at places that are not all places of axes. -/
  | outside {x : Value} {places : List Size} {r : Nat} (hdrops : n.Drops x places)
    (hr : x.type.HasAxes r) (hknown : x.type.dims?.isSome) (hne : places.length ≠ r)
    (hplace : ∃ p ∈ places, ∀ i < r, p.equals (.ofNat i) = false)
  /-- More axes are dropped than there are. -/
  | tooMany {x : Value} {places : List Size} {r : Nat} (hdrops : n.Drops x places)
    (hr : x.type.HasAxes r) (hmany : r < places.length)
  /-- The sizes after the axis of a selection do not start right after those before it. -/
  | selection {x i : Value} {ds is : List Size} {axis : Quantity} {place next : Int}
    (hop : n.operator = .gather) (hx : n.input 0 = .ok x) (hi : n.input 1 = .ok i)
    (hne : ∀ rank, x.type ≠ .shape rank) (hds : x.type.dims? = some ds)
    (his : i.type.dims? = some is)
    (haxis : (do (← n.quantity "axis" 0).normalize x.type.rank) = .ok axis)
    (hplace : axis.index = .ok place) (hnext : (do (← axis.add 1).index) = .ok next)
    (hapart : Place.clamp ds.length next ≠ Place.clamp ds.length place + 1)
    (haxes : ds.length + is.length ≠ 1)
  /-- A scalar is selected from another, or multiplied as a matrix. -/
  | scalars {v w : Value} (hop : n.operator = .gather ∨ n.operator = .matMul)
    (hv : n.input 0 = .ok v) (hw : n.input 1 = .ok w) (hvr : v.type.rank = 0)
    (hwr : w.type.rank = 0)
  /-- A window has sizes for other axes than the spatial ones. -/
  | window {x : Value} {axes r : Nat} (hslides : n.Slides x axes) (hr : x.type.HasAxes r)
    (hknown : x.type.dims?.isSome) (hcovers : coversAxes n = .ok false) (hcount : axes + 2 ≠ r)
  /-- A window whose strides cover the axes has strides for other axes than the spatial ones. -/
  | strides {x : Value} {axes r : Nat} {strides : List Int} (hslides : n.Slides x axes)
    (hr : x.type.HasAxes r) (hknown : x.type.dims?.isSome) (hcovers : coversAxes n = .ok true)
    (hstrides : n.intList "strides" (List.replicate axes 1) = .ok strides)
    (hcount : min (if axes = 0 then r else min axes r) strides.length + 2 ≠ r)
  /-- The kind of a transposed convolution is for another number of spatial axes. -/
  | transposed {x w : Value} {r : Nat} (hop : n.operator ∈ Operator.transposedConvolutions)
    (hx : n.input 0 = .ok x) (hw : n.input 1 = .ok w) (hr : x.type.HasAxes r)
    (hknown : x.type.dims?.isSome) (hknown' : w.type.dims?.isSome)
    (hcount : n.operator.spatialAxes?.getD (r - 2) + 2 ≠ r)
  /-- What says the rank of the result is no number of axes. -/
  | count {rank : Size} (hrank : n.RankAtRun rank) (hno : ¬ rank.IsRank)

end Node

variable {n m : Node} {t : ValueType} {v w x : Value} {e : ElementType} {s : Size} {r q : Nat}

/-- The axes at places that are apart can be dropped, if there are as many of them. -/
lemma dropped_countsAxes_iff {u : ValueType} {places : List Size} (hr : u.HasAxes r)
    (hapart : Apart places) :
    (ofRank e (.whole (r - places.length)) (u.dims?.map (dropPlaces places))).CountsAxes ↔
      ¬ (r < places.length ∨ places.length ≠ r ∧ u.dims?.isSome ∧
        ∃ p ∈ places, ∀ i < r, p.equals (.ofNat i) = false) := by
  rw [countsAxes_ofRank_whole]
  cases hdims : u.dims? with
  | none =>
    simp only [Option.map_none, reduceCtorEq, false_implies, implies_true, and_true,
      Option.isSome_none, Bool.false_eq_true, false_and, and_false, or_false]
    omega
  | some ds =>
    have hlength := hr.length ds hdims
    obtain ⟨hle, hiff⟩ := countP_isAmong (r := r) hapart
    have hsum := length_dropPlaces places ds
    rw [hlength] at hsum
    have hplaces : (∃ p ∈ places, ∀ i < r, p.equals (.ofNat i) = false) ↔
        ¬ ∀ p ∈ places, ∃ i < r, p.equals (.ofNat i) = true := by
      push Not
      simp
    rw [hplaces, ← hiff]
    simp only [Option.map_some, Option.some.injEq, forall_eq', Option.isSome_some, true_and]
    omega

lemma squeezeAt_of_places {u : ValueType} {axes : List Int} {places : List Size}
    (hr : u.rank = .ofNat r) (hplaces : distinctPlaces (.ofNat r) axes = .ok places) :
    squeezeAt u axes =
      .ok (.ofRank u.element (.whole (r - places.length)) (u.dims?.map (dropPlaces places))) := by
  rw [squeezeAt, hr, hplaces, Except.ok_bind]
  rfl

lemma squeezeAt_eq {u : ValueType} {axes : List Int} {places : List Size} (hr : u.HasAxes r)
    (hplaces : distinctPlaces u.rank axes = .ok places) (h : squeezeAt u axes = .ok t) :
    t = .ofRank u.element (.whole (r - places.length)) (u.dims?.map (dropPlaces places)) :=
  Except.ok.inj (h.symm.trans (squeezeAt_of_places hr.rank (hr.rank ▸ hplaces)))

/-- The element type of a reduction: places of greatest entries are integers. -/
def Node.reducedElement (n : Node) (x : Value) : ElementType :=
  if n.operator = .argMax then .int64 else x.type.element

lemma reduce_dropping {places : List Size} (hx : n.input 0 = .ok x) (hr : x.type.rank = .ofNat r)
    (hplaces : reducedPlaces n x.type.rank = .ok places)
    (hkeep : n.flag "keepdims" true = .ok false) : reduce n =
      .ok (.ofRank (n.reducedElement x) (.whole (r - places.length))
        (x.type.dims?.map (dropPlaces places))) := by
  simp only [reduce, hx, hplaces, hkeep, Except.ok_bind]
  rw [hr]
  rfl

lemma reduce_eq {places : List Size} (hx : n.input 0 = .ok x) (hr : x.type.HasAxes r)
    (hplaces : reducedPlaces n x.type.rank = .ok places)
    (hkeep : n.flag "keepdims" true = .ok false)
    (h : reduce n = .ok t) : ∃ e, t = .ofRank e (.whole (r - places.length))
      (x.type.dims?.map (dropPlaces places)) :=
  ⟨_, Except.ok.inj (h.symm.trans (reduce_dropping hx hr.rank hplaces hkeep))⟩

/-- A node that drops axes without a misfit drops places of axes, or nothing but their number is
known. -/
lemma Node.Drops.fits {places : List Size} (hdrops : n.Drops x places) (hplain : ¬ n.Misfit)
    (hr : x.type.HasAxes r) : ¬ (r < places.length ∨ places.length ≠ r ∧ x.type.dims?.isSome ∧
      ∃ p ∈ places, ∀ i < r, p.equals (.ofNat i) = false) := by
  rintro (hmany | ⟨hne, hknown, hplace⟩)
  · exact hplain (.tooMany hdrops hr hmany)
  · exact hplain (.outside hdrops hr hknown hne hplace)

lemma squeeze_countsAxes (hin : ∀ v ∈ n.inputs, v.type.CountsAxes) (hplain : ¬ n.Misfit)
    (hop : n.operator = .squeeze) (h : squeeze n = .ok t) : t.CountsAxes := by
  simp only [squeeze, Except.bind_eq_ok] at h
  obtain ⟨x, hx, _, -, axes, haxes, h⟩ := h
  obtain ⟨r, hr⟩ := input_countsAxes hin hx
  cases axes with
  | some axes =>
    obtain ⟨places, hplaces, -⟩ := Except.bind_eq_ok.mp h
    have hdrops : n.Drops x places := .squeezed hop hx haxes hplaces
    rw [squeezeAt_eq hr hplaces h]
    exact (dropped_countsAxes_iff hr (distinctPlaces_apart (hr.rank ▸ hplaces))).mpr
      (hdrops.fits hplain hr)
  | none =>
    dsimp only at h
    split at h
    · rw [Except.pure_eq_ok] at h
      exact h ▸ countsAxes_of_length rfl
    · cases h

lemma length_flattenPlaces (places sizes : List Size) :
    (flattenPlaces places sizes).length = sizes.length := by
  rw [flattenPlaces, List.length_map, List.length_zipIdx]

lemma reduce_countsAxes (hin : ∀ v ∈ n.inputs, v.type.CountsAxes) (hplain : ¬ n.Misfit)
    (hop : n.operator ∈ Operator.reductions) (h : reduce n = .ok t) : t.CountsAxes := by
  have hreduce := h
  simp only [reduce, Except.bind_eq_ok] at h
  obtain ⟨x, hx, places, hplaces, keep, hkeep, h⟩ := h
  obtain ⟨r, hr⟩ := input_countsAxes hin hx
  cases keep with
  | false =>
    obtain ⟨e, rfl⟩ := reduce_eq hx hr hplaces hkeep hreduce
    have hdrops : n.Drops x places := .reduced hop hx hplaces hkeep
    exact (dropped_countsAxes_iff hr (reducedPlaces_apart (hr.rank ▸ hplaces))).mpr
      (hdrops.fits hplain hr)
  | true =>
    rw [if_pos rfl, Except.pure_eq_ok, hr.rank] at h
    rw [← h]
    refine countsAxes_ofRank_ofNat.mpr (.inr fun ds hds => ?_)
    obtain ⟨sizes, hsizes, rfl⟩ := Option.map_eq_some_iff.mp hds
    rw [length_flattenPlaces, hr.length sizes hsizes]

/-- The result of a selection, as far as its number of axes goes. -/
lemma gather_eq {i : Value} (hx : n.input 0 = .ok x) (hi : n.input 1 = .ok i)
    (hne : ∀ rank, x.type ≠ .shape rank) (hr : x.type.HasAxes r) (hq : i.type.HasAxes q)
    (h : gather n = .ok t) : ∃ axis, (do (← n.quantity "axis" 0).normalize x.type.rank) = .ok axis ∧
      ((∃ ds is place next, x.type.dims? = some ds ∧ i.type.dims? = some is ∧
          axis.index = .ok place ∧ (do (← axis.add 1).index) = .ok next ∧
          t = .ofRank x.type.element (.whole (r + q - 1))
            (some (Place.before ds place ++ is ++ Place.onward ds next))) ∨
        (x.type.dims? = none ∨ i.type.dims? = none) ∧
          t = .ofRank x.type.element (.whole (r + q - 1)) none) := by
  rw [gather_of_ne_shape hx hi hne] at h
  obtain ⟨a, ha, h⟩ := Except.bind_eq_ok.mp h
  obtain ⟨axis, haxis, h⟩ := Except.bind_eq_ok.mp h
  refine ⟨axis, Except.bind_eq_ok.mpr ⟨a, ha, haxis⟩, ?_⟩
  have hrank : (do (← x.type.rank.add i.type.rank).sub 1) = .ok (.whole (r + q - 1)) := by
    rw [hr.rank, hq.rank]
    rfl
  cases hds : x.type.dims? with
  | none =>
    simp only [hds, pure_bind, ← bind_assoc, hrank, Except.ok_bind, Except.pure_eq_ok] at h
    exact .inr ⟨.inl rfl, h.symm⟩
  | some ds =>
    cases his : i.type.dims? with
    | none =>
      simp only [hds, his, pure_bind, ← bind_assoc, hrank, Except.ok_bind, Except.pure_eq_ok] at h
      exact .inr ⟨.inr rfl, h.symm⟩
    | some is =>
      simp only [hds, his, replacedAt, Except.bind_eq_ok, Except.map_eq_ok, Except.pure_eq_ok] at h
      obtain ⟨_, ⟨_, ⟨place, hplace, b, hb, next, hnext, rfl⟩, rfl⟩, h⟩ := h
      obtain ⟨sum, hsum, rank', hrank', rfl⟩ := h
      obtain rfl : Size.whole (r + q - 1) = rank' := by
        rw [Except.bind_eq_ok.mpr ⟨sum, hsum, hrank'⟩] at hrank
        exact (Except.ok.inj hrank).symm
      exact .inl ⟨ds, is, place, next, rfl, rfl, hplace, Except.bind_eq_ok.mpr ⟨b, hb, hnext⟩, rfl⟩

lemma length_replaced (ds is : List Size) (place next : Int) :
    (Place.before ds place ++ is ++ Place.onward ds next).length + Place.clamp ds.length next =
      ds.length + is.length + Place.clamp ds.length place := by
  have hclamp : ∀ i, Place.clamp ds.length i ≤ ds.length := by
    intro i
    unfold Place.clamp
    split <;> omega
  have hplace := hclamp place
  have hnext := hclamp next
  simp only [Place.before, Place.onward, List.length_append, List.length_take, List.length_drop]
  omega

/-- The sizes of a selection are as many as its axes if the kept ones leave out just one place. -/
lemma replaced_countsAxes_iff {ds is : List Size} {place next : Int} :
    (ofRank e (.whole (ds.length + is.length - 1))
        (some (Place.before ds place ++ is ++ Place.onward ds next))).CountsAxes ↔
      ¬ (ds.length + is.length = 0 ∨ Place.clamp ds.length next ≠ Place.clamp ds.length place + 1 ∧
        ds.length + is.length ≠ 1) := by
  have hlength := length_replaced ds is place next
  rw [countsAxes_ofRank_whole]
  simp only [Option.some.injEq, forall_eq']
  omega

lemma gather_countsAxes (hin : ∀ v ∈ n.inputs, v.type.CountsAxes) (hplain : ¬ n.Misfit)
    (hop : n.operator = .gather) (h : gather n = .ok t) : t.CountsAxes := by
  have hgather := h
  simp only [gather, Except.bind_eq_ok] at h
  obtain ⟨x, hx, i, hi, h⟩ := h
  by_cases hshape : ∃ rank, x.type = .shape rank
  · obtain ⟨rank, hrank⟩ := hshape
    simp only [hrank] at h
    split at h
    · rw [Except.pure_eq_ok] at h
      exact h ▸ ⟨0, hasAxes_scalar _⟩
    · simp only [Except.bind_eq_ok, Except.pure_eq_ok] at h
      obtain ⟨_, -, rfl⟩ := h
      exact ⟨1, hasAxes_shape _⟩
  have hne : ∀ rank, x.type ≠ .shape rank := fun rank hrank => hshape ⟨rank, hrank⟩
  obtain ⟨r, hr⟩ := input_countsAxes hin hx
  obtain ⟨q, hq⟩ := input_countsAxes hin hi
  have hzero : r + q ≠ 0 := by
    intro hzero
    obtain ⟨rfl, rfl⟩ : r = 0 ∧ q = 0 := by omega
    exact hplain (.scalars (.inl hop) hx hi hr.rank hq.rank)
  obtain ⟨axis, haxis, ⟨ds, is, place, next, hds, his, hplace, hnext, rfl⟩ | ⟨-, rfl⟩⟩ :=
    gather_eq hx hi hne hr hq hgather
  · rw [← hr.length ds hds, ← hq.length is his] at hzero ⊢
    refine replaced_countsAxes_iff.mpr ?_
    rintro (hnone | ⟨hapart, haxes⟩)
    · exact hzero hnone
    · exact hplain (.selection hop hx hi hne hds his haxis hplace hnext hapart haxes)
  · refine countsAxes_ofRank_whole.mpr (.inr ⟨by omega, by simp⟩)

lemma productRank_eq (r q : Nat) : productRank (.ofNat r) (.ofNat q) =
    .ok (.whole (if 2 ≤ min r q then (max r q : Nat) else (max r q : Nat) - 1)) := by
  have hleast : Size.atMost 2 (.ofNat (min r q)) = .ok (decide (2 ≤ min r q)) := by
    refine (Size.atMost_whole 2 (min r q : Nat)).trans ?_
    congr 1
    exact decide_eq_decide.mpr (by omega)
  unfold productRank
  rw [Size.larger_ofNat, Size.smaller_ofNat, Except.ok_bind, Except.ok_bind, hleast, Except.ok_bind]
  by_cases htwo : 2 ≤ min r q
  · rw [if_pos (decide_eq_true htwo), if_pos htwo]
    rfl
  · rw [if_neg (by simpa using htwo), if_neg htwo]
    rfl

lemma matMul_operands (h : matMul n = .ok t) : ∃ v w, n.input 0 = .ok v ∧ n.input 1 = .ok w := by
  unfold matMul at h
  split at h
  · next a b _ hinputs _ =>
    exact ⟨a, b, by simp [Node.input, hinputs], by simp [Node.input, hinputs]⟩
  · cases h

/-- The result of a product, as far as its number of axes goes. -/
lemma matMul_eq (hv : n.input 0 = .ok v) (hw : n.input 1 = .ok w) (hr : v.type.HasAxes r)
    (hq : w.type.HasAxes q) (h : matMul n = .ok t) : ∃ e dims,
      t = .ofRank e (.whole (if 2 ≤ min r q then (max r q : Nat) else (max r q : Nat) - 1)) dims ∧
        ∀ ds, dims = some ds → 2 ≤ min r q ∧ ds.length = max r q := by
  unfold matMul at h
  split at h
  swap
  · cases h
  next a b o hinputs _ =>
  obtain rfl : a = v := by simpa [Node.input, hinputs] using hv
  obtain rfl : b = w := by simpa [Node.input, hinputs] using hw
  obtain ⟨e, -, h⟩ := Except.bind_eq_ok.mp h
  dsimp only at h
  rw [hr.rank, hq.rank, productRank_eq, Except.ok_bind] at h
  split at h
  · next sa sb hsa hsb =>
    have hr2 : (Size.ofNat r).less 2 = .ok (decide (r < 2)) := Size.less_ofNat r 2
    have hq2 : (Size.ofNat q).less 2 = .ok (decide (q < 2)) := Size.less_ofNat q 2
    rw [hr2, hq2, Except.ok_bind, Except.ok_bind] at h
    split at h
    · rw [Except.pure_eq_ok] at h
      exact ⟨e, none, h.symm, by simp⟩
    next htwo =>
    simp only [Bool.or_eq_true, decide_eq_true_eq] at htwo
    simp only [Except.bind_eq_ok] at h
    obtain ⟨batch, hbatch, _, -, _, -, h⟩ := h
    split at h
    · cases h
    simp only [Except.bind_eq_ok, Except.pure_eq_ok] at h
    obtain ⟨_, -, _, -, rfl⟩ := h
    refine ⟨e, _, rfl, fun ds hds => ⟨by omega, ?_⟩⟩
    obtain rfl := Option.some.inj hds
    have hclamp : ∀ k : Nat, 2 ≤ k → Place.clamp k (-2) = k - 2 := by
      intro k hk
      simp only [Place.clamp]
      split <;> omega
    rw [List.length_append, length_broadcastDims hbatch, Place.before, Place.before,
      List.length_take, List.length_take, hr.length sa hsa, hq.length sb hsb, hclamp r (by omega),
      hclamp q (by omega), List.length_cons, List.length_cons, List.length_nil]
    omega
  · rw [Except.pure_eq_ok] at h
    exact ⟨e, none, h.symm, by simp⟩

lemma matMul_countsAxes (hin : ∀ v ∈ n.inputs, v.type.CountsAxes) (hplain : ¬ n.Misfit)
    (hop : n.operator = .matMul) (h : matMul n = .ok t) : t.CountsAxes := by
  obtain ⟨v, w, hv, hw⟩ := matMul_operands h
  obtain ⟨r, hr⟩ := input_countsAxes hin hv
  obtain ⟨q, hq⟩ := input_countsAxes hin hw
  obtain ⟨e, dims, rfl, hdims⟩ := matMul_eq hv hw hr hq h
  have hsome : r ≠ 0 ∨ q ≠ 0 := by
    by_contra hnone
    obtain ⟨rfl, rfl⟩ : r = 0 ∧ q = 0 := by omega
    exact hplain (.scalars (.inr hop) hv hw hr.rank hq.rank)
  refine countsAxes_ofRank_whole.mpr (.inr ⟨by split <;> omega, fun ds hds => ?_⟩)
  obtain ⟨htwo, hlength⟩ := hdims ds hds
  rw [if_pos htwo, hlength]

/-! ## Windows -/

lemma lt_length_of_get {α : Type} {xs : List α} {a : α} {i : Nat} (h : Place.get xs i = .ok a) :
    i < xs.length := by
  by_contra hi
  have hnone : xs[i]? = none := List.getElem?_eq_none (by omega)
  have hi0 : ¬ (i : Int) < 0 := by omega
  simp [Place.get, hi0, hnone, outOfRange] at h

/-- How many spatial sizes come out of a window. -/
lemma length_spatialDims {ds kernel spatial : List Size}
    (h : spatialDims n ds kernel = .ok spatial) :
    (coversAxes n = .ok false ∧ spatial.length = kernel.length) ∨
      ∃ strides, coversAxes n = .ok true ∧
        n.intList "strides" (List.replicate kernel.length 1) = .ok strides ∧
        spatial.length =
          min (if kernel.length = 0 then ds.length else min kernel.length ds.length)
            strides.length := by
  simp only [spatialDims, Except.bind_eq_ok] at h
  obtain ⟨strides, hstrides, _, -, _, -, covers, hcovers, h⟩ := h
  cases covers with
  | true =>
    refine .inr ⟨strides, hcovers, hstrides, ?_⟩
    rw [if_pos rfl] at h
    rw [← (Except.mapM_eq_ok h).length_eq, List.length_zip]
    congr 1
    split
    · rfl
    · simp only [Place.onward, List.length_drop, Place.clamp]
      split <;> omega
  | false =>
    refine .inl ⟨hcovers, ?_⟩
    rw [if_neg (by simp)] at h
    rw [← (Except.mapM_eq_ok h).length_eq, List.length_range]

lemma conv_operands (h : conv n = .ok t) : ∃ v w, n.input 0 = .ok v ∧ n.input 1 = .ok w := by
  unfold conv at h
  split at h
  · next a b _ _ hinputs _ =>
    exact ⟨a, b, by simp [Node.input, hinputs], by simp [Node.input, hinputs]⟩
  · cases h

/-- The result of a convolution, as far as its number of axes goes. -/
lemma conv_eq (hv : n.input 0 = .ok v) (hw : n.input 1 = .ok w) (h : conv n = .ok t) :
    (∃ ds ws kernel spatial sizes, v.type.dims? = some ds ∧ w.type.dims? = some ws ∧
      kernelSizes n (ws.drop 2) = .ok kernel ∧ spatialDims n ds kernel = .ok spatial ∧
      sizes.length = spatial.length + 2 ∧ 2 ≤ ds.length ∧
      t = .ofRank v.type.element v.type.rank (some sizes)) ∨
    (v.type.dims? = none ∨ w.type.dims? = none) ∧
      t = .ofRank v.type.element v.type.rank none := by
  unfold conv at h
  split at h
  swap
  · cases h
  next a b _ o hinputs _ =>
  obtain rfl : a = v := by simpa [Node.input, hinputs] using hv
  obtain rfl : b = w := by simpa [Node.input, hinputs] using hw
  simp only [Except.bind_eq_ok] at h
  obtain ⟨_, -, _, -, h⟩ := h
  split at h
  · cases h
  cases hds : a.type.dims? with
  | none =>
    rw [hds] at h
    exact .inr ⟨.inl rfl, (Except.pure_eq_ok.mp h).symm⟩
  | some ds =>
    cases hws : b.type.dims? with
    | none =>
      rw [hds, hws] at h
      exact .inr ⟨.inr rfl, (Except.pure_eq_ok.mp h).symm⟩
    | some ws =>
      simp only [hds, hws, Except.bind_eq_ok] at h
      obtain ⟨channels, hchannels, _, -, h⟩ := h
      split at h
      · cases h
      simp only [Except.bind_eq_ok, Except.pure_eq_ok] at h
      obtain ⟨kernel, hkernel, spatial, hspatial, _, -, _, -, rfl⟩ := h
      exact .inl ⟨ds, ws, kernel, spatial, _, rfl, rfl, hkernel, hspatial, by simp,
        lt_length_of_get hchannels, rfl⟩

/-- A window without a misfit has as many sizes as there are spatial axes. -/
lemma Node.Slides.fits {ds kernel spatial : List Size} (hslides : n.Slides x kernel.length)
    (hplain : ¬ n.Misfit) (hr : x.type.HasAxes r) (hds : x.type.dims? = some ds)
    (h : spatialDims n ds kernel = .ok spatial) : spatial.length + 2 = r := by
  have hknown : x.type.dims?.isSome := by simp [hds]
  by_contra hne
  obtain ⟨hcovers, hlength⟩ | ⟨strides, hcovers, hstrides, hlength⟩ := length_spatialDims h
  · exact hplain (.window hslides hr hknown hcovers (hlength ▸ hne))
  · refine hplain (.strides hslides hr hknown hcovers hstrides ?_)
    rwa [hlength, hr.length ds hds] at hne

lemma conv_countsAxes (hin : ∀ v ∈ n.inputs, v.type.CountsAxes) (hplain : ¬ n.Misfit)
    (hop : n.operator ∈ Operator.convolutions) (h : conv n = .ok t) : t.CountsAxes := by
  obtain ⟨v, w, hv, hw⟩ := conv_operands h
  obtain ⟨r, hr⟩ := input_countsAxes hin hv
  obtain ⟨ds, ws, kernel, spatial, sizes, hds, hws, hkernel, hspatial, hsizes, -, rfl⟩ | ⟨-, rfl⟩ :=
    conv_eq hv hw h
  · have hslides : n.Slides v kernel.length := .conv hop hv hw hws hkernel rfl
    rw [hr.rank]
    exact countsAxes_of_length (hsizes.trans (hslides.fits hplain hr hds hspatial))
  · exact hr.rank ▸ countsAxes_of_unknown _ r

/-- The result of a pool over known sizes: it keeps the first two. -/
lemma pool_eq_append {ds : List Size} (hv : n.input 0 = .ok v) (hds : v.type.dims? = some ds)
    (h : pool n = .ok t) : ∃ kernel spatial,
      n.intList "kernel_shape" [] = .ok kernel ∧ kernel ≠ [] ∧ ds.length = kernel.length + 2 ∧
      spatialDims n ds (kernel.map .whole) = .ok spatial ∧
      t = .ofRank v.type.element (.ofNat ds.length) (some (ds.take 2 ++ spatial)) := by
  simp only [pool] at h
  split at h
  · cases h
  rw [hv, Except.ok_bind] at h
  obtain ⟨kernel, hkernel, h⟩ := Except.bind_eq_ok.mp h
  split at h
  · cases h
  next hne =>
  rw [hds] at h
  dsimp only at h
  split at h
  · cases h
  next hlength =>
  simp only [Except.bind_eq_ok, Except.pure_eq_ok] at h
  obtain ⟨spatial, hspatial, rfl⟩ := h
  exact ⟨kernel, spatial, hkernel, hne, not_not.mp hlength, hspatial, rfl⟩

/-- The result of a pool over known sizes, as far as its number of axes goes. -/
lemma pool_eq {ds : List Size} (hv : n.input 0 = .ok v) (hds : v.type.dims? = some ds)
    (h : pool n = .ok t) : ∃ kernel spatial sizes,
      n.intList "kernel_shape" [] = .ok kernel ∧ kernel ≠ [] ∧ ds.length = kernel.length + 2 ∧
      spatialDims n ds (kernel.map .whole) = .ok spatial ∧ sizes.length = spatial.length + 2 ∧
      t = .ofRank v.type.element (.ofNat ds.length) (some sizes) := by
  obtain ⟨kernel, spatial, hkernel, hne, hlength, hspatial, rfl⟩ := pool_eq_append hv hds h
  refine ⟨kernel, spatial, _, hkernel, hne, hlength, hspatial, ?_, rfl⟩
  rw [List.length_append, List.length_take]
  omega

lemma pool_countsAxes (hin : ∀ v ∈ n.inputs, v.type.CountsAxes) (hplain : ¬ n.Misfit)
    (hop : n.operator ∈ Operator.pools) (h : pool n = .ok t) : t.CountsAxes := by
  have hpool := h
  simp only [pool] at h
  split at h
  · cases h
  obtain ⟨v, hv, h⟩ := Except.bind_eq_ok.mp h
  obtain ⟨r, hr⟩ := input_countsAxes hin hv
  cases hds : v.type.dims? with
  | some ds =>
    obtain ⟨kernel, spatial, sizes, hkernel, -, -, hspatial, hsizes, rfl⟩ := pool_eq hv hds hpool
    have hslides : n.Slides v (kernel.map Size.whole).length :=
      .pool hop hv hkernel (List.length_map _).symm
    rw [hr.length ds hds]
    exact countsAxes_of_length (hsizes.trans (hslides.fits hplain hr hds hspatial))
  | none =>
    obtain ⟨kernel, -, h⟩ := Except.bind_eq_ok.mp h
    split at h
    · cases h
    rw [hds, hr.rank, Except.pure_eq_ok] at h
    exact h ▸ countsAxes_of_unknown _ r

lemma Size.eq_toNat_of_count {i : Int} {axes : Nat} (h : (Size.whole i).count = .ok axes) :
    axes = i.toNat := by
  simp only [Size.count, Size.index, Except.ok_bind] at h
  split at h
  · cases h
  exact (Except.pure_eq_ok.mp h).symm

lemma Size.eq_toNat_of_countBeside {i : Int} {held axes : Nat}
    (h : (Size.whole i).countBeside held = .ok axes) : axes = i.toNat := by
  simp only [Size.countBeside, Size.index, Except.ok_bind] at h
  split at h
  · exact (Except.pure_eq_ok.mp h).symm
  · exact Size.eq_toNat_of_count h

lemma countBeside_spatialCount {o : Operator} {held axes : Nat}
    (hs : spatialCount o (.ofNat r) = .ok s) (haxes : s.countBeside held = .ok axes) :
    axes = o.spatialAxes?.getD (r - 2) := by
  unfold spatialCount at hs
  cases ho : o.spatialAxes? with
  | some k =>
    rw [ho] at hs
    obtain rfl := Except.ok.inj hs
    exact Size.eq_toNat_of_countBeside haxes
  | none =>
    rw [ho] at hs
    obtain rfl : Size.whole (r - 2) = s := Except.ok.inj hs
    rw [Size.eq_toNat_of_countBeside haxes, Option.getD_none]
    omega

/-- The result of a transposed convolution of known sizes, as far as its number of axes goes. -/
lemma convTranspose_eq {ds ws : List Size} (hv : n.input 0 = .ok v) (hw : n.input 1 = .ok w)
    (hds : v.type.dims? = some ds) (hws : w.type.dims? = some ws) (h : convTranspose n = .ok t) :
    ∃ count axes sizes, spatialCount n.operator v.type.rank = .ok count ∧
      count.countBeside ds.length = .ok axes ∧ sizes.length = axes + 2 ∧ ds ≠ [] ∧
      t = .ofRank v.type.element v.type.rank (some sizes) := by
  simp only [convTranspose, hv, hw, hds, hws, Except.ok_bind, Except.bind_eq_ok,
    Except.pure_eq_ok] at h
  obtain ⟨count, hcount, kernel, -, axes, haxes, _, -, _, -, _, -, _, -, spatial, hspatial, _, -, _,
    -, batch, hbatch, rfl⟩ := h
  refine ⟨count, axes, _, hcount, haxes, ?_, ?_, rfl⟩
  · rw [List.length_append, ← (Except.mapM_eq_ok hspatial).length_eq, List.length_range]
    simp only [List.length_cons, List.length_nil]
    omega
  · rintro rfl
    exact absurd (lt_length_of_get hbatch) (Nat.lt_irrefl 0)

lemma convTranspose_countsAxes (hin : ∀ v ∈ n.inputs, v.type.CountsAxes) (hplain : ¬ n.Misfit)
    (hop : n.operator ∈ Operator.transposedConvolutions) (h : convTranspose n = .ok t) :
    t.CountsAxes := by
  have hconv := h
  simp only [convTranspose] at h
  obtain ⟨v, hv, h⟩ := Except.bind_eq_ok.mp h
  obtain ⟨w, hw, h⟩ := Except.bind_eq_ok.mp h
  obtain ⟨r, hr⟩ := input_countsAxes hin hv
  split at h
  · next ds ws hds hws =>
    obtain ⟨count, axes, sizes, hcount, haxes, hsizes, -, rfl⟩ :=
      convTranspose_eq hv hw hds hws hconv
    rw [hr.rank] at hcount ⊢
    rw [countBeside_spatialCount hcount haxes] at hsizes
    refine countsAxes_of_length (hsizes.trans ?_)
    by_contra hne
    exact hplain (.transposed hop hv hw hr (by simp [hds]) (by simp [hws]) hne)
  · rw [hr.rank, Except.pure_eq_ok] at h
    exact h ▸ countsAxes_of_unknown _ r

lemma length_foldl_insert {α : Type} {one : α} {places : List Int} {ds : List α} :
    (places.foldl (fun ds a => Place.insert ds a one) ds).length = ds.length + places.length := by
  induction places generalizing ds with
  | nil => rfl
  | cons a places ih =>
    rw [List.foldl_cons, ih, Place.length_insert, List.length_cons]
    omega

lemma rank_add_length (hr : t.rank = .ofNat r) (axes : List Int) :
    t.rank.add (.ofNat axes.length) = .ok (.ofNat (r + axes.length)) := by
  rw [hr]
  exact congrArg (Except.ok ∘ Size.whole) (by simp)

lemma unsqueezeAt_countsAxes {u : ValueType} {axes : List Int} (hr : u.HasAxes r)
    (h : unsqueezeAt u axes = .ok t) : t.CountsAxes := by
  simp only [unsqueezeAt] at h
  rw [rank_add_length hr.rank, Except.ok_bind] at h
  split at h
  · rw [Except.pure_eq_ok] at h
    exact h ▸ countsAxes_of_unknown _ _
  · next ds hds =>
    simp only [Except.bind_eq_ok, Except.pure_eq_ok] at h
    obtain ⟨places, hplaces, rfl⟩ := h
    refine countsAxes_of_length ?_
    rw [length_foldl_insert, List.length_mergeSort, ← (Except.mapM_eq_ok hplaces).length_eq,
      hr.length ds hds]

lemma unsqueeze_countsAxes (hin : ∀ v ∈ n.inputs, v.type.CountsAxes) (hplain : ¬ n.Misfit)
    (hop : n.operator = .unsqueeze) (h : unsqueeze n = .ok t) : t.CountsAxes := by
  simp only [unsqueeze, Except.bind_eq_ok] at h
  obtain ⟨x, hx, _, -, axes, haxes, h⟩ := h
  obtain ⟨r, hr⟩ := input_countsAxes hin hx
  cases axes with
  | some axes => exact unsqueezeAt_countsAxes hr h
  | none =>
    dsimp only at h
    split at h
    · next count hcount =>
      obtain ⟨v, hv, hlength⟩ := Option.bind_eq_some_iff.mp hcount
      simp only [Except.bind_eq_ok, Except.pure_eq_ok] at h
      obtain ⟨rank, hrank, rfl⟩ := h
      refine countsAxes_ofRank_none.mpr (not_not.mp fun hno => hplain (.count ?_ hno))
      exact .unsqueeze hop haxes hx (Node.input_eq_ok.mpr hv) hlength hrank
    · cases h

lemma reshapeAtRun_eq {u : ValueType} {o : Option ValueType} (h : reshapeAtRun u o = .ok t) :
    ∃ rank, o.bind leadingDim? = some rank ∧ t = .ofRank u.element rank none := by
  unfold reshapeAtRun at h
  split at h
  · next rank => exact ⟨rank, rfl, (Except.ok.inj h).symm⟩
  · split at h
    · next rank hrank => exact ⟨rank, hrank, (Except.ok.inj h).symm⟩
    · cases h

lemma reshape_countsAxes (hplain : ¬ n.Misfit) (hop : n.operator = .reshape)
    (h : reshape n = .ok t) : t.CountsAxes := by
  simp only [reshape] at h
  split at h
  · cases h
  simp only [Except.bind_eq_ok] at h
  obtain ⟨x, -, target, htarget, h⟩ := h
  cases target with
  | some target => exact reshapeTo_countsAxes h
  | none =>
    obtain ⟨rank, hrank, rfl⟩ := reshapeAtRun_eq h
    rw [Option.bind_map] at hrank
    obtain ⟨v, hv, hlength⟩ := Option.bind_eq_some_iff.mp hrank
    refine countsAxes_ofRank_none.mpr (not_not.mp fun hno => hplain (.count ?_ hno))
    exact .reshape hop htarget (Node.input_eq_ok.mpr hv) hlength

lemma constantOfShape_eq (hv : n.input 0 = .ok v) (hliteral : v.literal = none)
    (h : constantOfShape n = .ok t) :
    ∃ e rank, leadingDim? v.type = some rank ∧ t = .ofRank e rank none := by
  simp only [constantOfShape, hv, Except.ok_bind, hliteral] at h
  obtain ⟨e, -, h⟩ := Except.bind_eq_ok.mp h
  split at h
  · next rank hrank => exact ⟨e, rank, by rw [hrank]; rfl, (Except.pure_eq_ok.mp h).symm⟩
  · split at h
    · next rank hrank => exact ⟨e, rank, hrank, (Except.pure_eq_ok.mp h).symm⟩
    · cases h

lemma constantOfShape_countsAxes (hplain : ¬ n.Misfit) (hop : n.operator = .constantOfShape)
    (h : constantOfShape n = .ok t) : t.CountsAxes := by
  have hfill := h
  simp only [constantOfShape, Except.bind_eq_ok] at h
  obtain ⟨e, -, v, hv, h⟩ := h
  cases hliteral : v.literal with
  | some a =>
    simp only [hliteral, Except.bind_eq_ok, Except.pure_eq_ok] at h
    obtain ⟨sizes, -, rfl⟩ := h
    exact countsAxes_of_length (List.length_map _)
  | none =>
    obtain ⟨e, rank, hlength, rfl⟩ := constantOfShape_eq hv hliteral hfill
    exact countsAxes_ofRank_none.mpr
      (not_not.mp fun hno => hplain (.count (.fill hop hv hliteral hlength) hno))

/-! ## Rules -/

/-- Without a misfit, a rule gives a coherent type. -/
theorem rule_countsAxes {rule : Node → Except Error ValueType}
    (hin : ∀ v ∈ n.inputs, v.type.CountsAxes) (hplain : ¬ n.Misfit)
    (hrule : rule? n.operator = some rule) (h : rule n = .ok t) : t.CountsAxes := by
  cases ho : n.operator <;>
    simp only [ho, rule?, Option.some.injEq, reduceCtorEq] at hrule <;> subst hrule
  case select => exact select_countsAxes hin h
  case cast => exact cast_countsAxes hin h
  case constant => exact constant_countsAxes h
  case constantOfShape => exact constantOfShape_countsAxes hplain ho h
  case shape => exact shape_countsAxes h
  case reshape => exact reshape_countsAxes hplain ho h
  case unsqueeze => exact unsqueeze_countsAxes hin hplain ho h
  case squeeze => exact squeeze_countsAxes hin hplain ho h
  case flatten => exact flatten_countsAxes h
  case transpose => exact transpose_countsAxes hin h
  case concat => exact concat_countsAxes hin h
  case gather => exact gather_countsAxes hin hplain ho h
  case matMul => exact matMul_countsAxes hin hplain ho h
  case linear => exact linear_countsAxes hin h
  case gemm => exact gemm_countsAxes h
  case conv | conv1d | conv2d | conv3d =>
    exact conv_countsAxes hin hplain (by simp [ho, Operator.convolutions]) h
  case convTranspose | convTranspose1d | convTranspose2d | convTranspose3d =>
    exact convTranspose_countsAxes hin hplain (by simp [ho, Operator.transposedConvolutions]) h
  case maxPool | maxPool1d | maxPool2d | averagePool | averagePool1d | averagePool2d =>
    exact pool_countsAxes hin hplain (by simp [ho, Operator.pools]) h
  case globalAveragePool | globalMaxPool => exact globalPool_countsAxes hin h
  case reduceMax | reduceMean | reduceMin | reduceProd | reduceSum | argMax =>
    exact reduce_countsAxes hin hplain (by simp [ho, Operator.reductions]) h
  all_goals exact entrywise_countsAxes hin h

lemma rule?_reductions {o : Operator} (ho : o ∈ Operator.reductions) : rule? o = some reduce := by
  simp only [Operator.reductions, List.mem_cons, List.not_mem_nil, or_false] at ho
  rcases ho with rfl | rfl | rfl | rfl | rfl | rfl <;> rfl

lemma rule?_convolutions {o : Operator} (ho : o ∈ Operator.convolutions) :
    rule? o = some conv := by
  simp only [Operator.convolutions, List.mem_cons, List.not_mem_nil, or_false] at ho
  rcases ho with rfl | rfl | rfl | rfl <;> rfl

lemma rule?_transposedConvolutions {o : Operator} (ho : o ∈ Operator.transposedConvolutions) :
    rule? o = some convTranspose := by
  simp only [Operator.transposedConvolutions, List.mem_cons, List.not_mem_nil, or_false] at ho
  rcases ho with rfl | rfl | rfl | rfl <;> rfl

lemma rule?_pools {o : Operator} (ho : o ∈ Operator.pools) : rule? o = some pool := by
  simp only [Operator.pools, List.mem_cons, List.not_mem_nil, or_false] at ho
  rcases ho with rfl | rfl | rfl | rfl | rfl | rfl <;> rfl

/-- The rule of the node has typed its first output. -/
def Node.TypedAs (n : Node) (t : ValueType) : Prop :=
  ∃ rule, rule? n.operator = some rule ∧ rule n = .ok t

lemma Node.TypedAs.rule {rule : Node → Except Error ValueType} (h : n.TypedAs t)
    (hrule : rule? n.operator = some rule) : rule n = .ok t := by
  obtain ⟨rule', hrule', ht⟩ := h
  rwa [Option.some.inj (hrule.symm.trans hrule')]

/-- The type that comes out of dropped axes. -/
lemma Node.Drops.eq {places : List Size} (hdrops : n.Drops x places) (hr : x.type.HasAxes r)
    (h : n.TypedAs t) : Apart places ∧ ∃ e, t = .ofRank e (.whole (r - places.length))
      (x.type.dims?.map (dropPlaces places)) := by
  cases hdrops with
  | squeezed hop hx haxes hplaces =>
    have h : squeeze n = .ok t := h.rule (by rw [hop]; rfl)
    simp only [squeeze, hx, haxes, Except.ok_bind] at h
    obtain ⟨_, -, h⟩ := Except.bind_eq_ok.mp h
    exact ⟨distinctPlaces_apart (hr.rank ▸ hplaces), _, squeezeAt_eq hr hplaces h⟩
  | reduced hop hx hplaces hkeep =>
    exact ⟨reducedPlaces_apart (hr.rank ▸ hplaces),
      reduce_eq hx hr hplaces hkeep (h.rule (rule?_reductions hop))⟩

/-- The type that comes out of a window. -/
lemma Node.Slides.eq {axes : Nat} (hslides : n.Slides x axes) (hr : x.type.HasAxes r)
    (hknown : x.type.dims?.isSome) (h : n.TypedAs t) : ∃ ds kernel spatial sizes,
      x.type.dims? = some ds ∧ kernel.length = axes ∧ spatialDims n ds kernel = .ok spatial ∧
        sizes.length = spatial.length + 2 ∧ 2 ≤ r ∧
        t = .ofRank x.type.element (.ofNat r) (some sizes) := by
  obtain ⟨ds, hds⟩ := Option.isSome_iff_exists.mp hknown
  cases hslides with
  | conv hop hx hw hws hkernel haxes =>
    obtain ⟨ds', ws', kernel', spatial, sizes, hds', hws', hkernel', hspatial, hsizes, htwo, rfl⟩ |
      ⟨hnone, -⟩ := conv_eq hx hw (h.rule (rule?_convolutions hop))
    · obtain rfl := Option.some.inj (hds.symm.trans hds')
      obtain rfl := Option.some.inj (hws.symm.trans hws')
      obtain rfl := Except.ok.inj (hkernel.symm.trans hkernel')
      exact ⟨ds, _, spatial, sizes, hds, haxes, hspatial, hsizes, hr.length ds hds ▸ htwo,
        hr.rank ▸ rfl⟩
    · simp [hds, hws] at hnone
  | pool hop hx hkernel haxes =>
    obtain ⟨kernel', spatial, sizes, hkernel', -, hlength, hspatial, hsizes, rfl⟩ :=
      pool_eq hx hds (h.rule (rule?_pools hop))
    obtain rfl := Except.ok.inj (hkernel.symm.trans hkernel')
    have hr := hr.length ds hds
    exact ⟨ds, _, spatial, sizes, hds, (List.length_map _).trans haxes, hspatial, hsizes, by omega,
      hr ▸ rfl⟩

lemma not_countsAxes_of_length {ds : List Size} (hr : r ≠ 0) (h : ds.length ≠ r) :
    ¬ (ofRank e (.ofNat r) (some ds)).CountsAxes := by
  rw [countsAxes_ofRank_ofNat]
  rintro (hzero | hlength)
  · exact hr hzero
  · exact h (hlength ds rfl)

/-- The type that comes out of a length known at run. -/
lemma Node.RankAtRun.eq {rank : Size} (hrank : n.RankAtRun rank) (h : n.TypedAs t) :
    ∃ e, t = .ofRank e rank none := by
  cases hrank with
  | reshape hop htarget hv hlength =>
    have h : Typing.reshape n = .ok t := h.rule (by rw [hop]; rfl)
    simp only [Typing.reshape] at h
    split at h
    · cases h
    simp only [htarget, Except.ok_bind, Except.bind_eq_ok] at h
    obtain ⟨x, -, h⟩ := h
    obtain ⟨rank', hrank', rfl⟩ := reshapeAtRun_eq h
    rw [Node.input_eq_ok.mp hv] at hrank'
    obtain rfl := Option.some.inj (hlength.symm.trans hrank')
    exact ⟨_, rfl⟩
  | fill hop hv hliteral hlength =>
    obtain ⟨e, rank', hlength', rfl⟩ :=
      constantOfShape_eq hv hliteral (h.rule (by rw [hop]; rfl))
    obtain rfl := Option.some.inj (hlength.symm.trans hlength')
    exact ⟨e, rfl⟩
  | unsqueeze hop haxes hx hv hlength hsum =>
    have h : Typing.unsqueeze n = .ok t := h.rule (by rw [hop]; rfl)
    simp only [Typing.unsqueeze, hx, haxes, Except.ok_bind, Node.input_eq_ok.mp hv,
      Option.bind_some, hlength, hsum] at h
    obtain ⟨_, -, h⟩ := Except.bind_eq_ok.mp h
    exact ⟨_, (Except.pure_eq_ok.mp h).symm⟩

/-- The rank that comes out of two scalars is negative. -/
lemma scalars_not_countsAxes (hop : n.operator = .gather ∨ n.operator = .matMul)
    (hv : n.input 0 = .ok v) (hw : n.input 1 = .ok w) (hr : v.type.HasAxes 0)
    (hq : w.type.HasAxes 0) (h : n.TypedAs t) : ¬ t.CountsAxes := by
  have hnegative : ∀ e dims, ¬ (ofRank e (.whole (-1)) dims).CountsAxes := by
    intro e dims
    rw [countsAxes_ofRank_whole]
    omega
  rcases hop with hop | hop
  · have hne : ∀ rank, v.type ≠ .shape rank := by
      intro rank hshape
      have hone := hr.rank
      rw [hshape] at hone
      cases hone
    obtain ⟨axis, -, ⟨ds, is, place, next, -, -, -, -, rfl⟩ | ⟨-, rfl⟩⟩ :=
      gather_eq hv hw hne hr hq (h.rule (by rw [hop]; rfl))
    · exact hnegative _ _
    · exact hnegative _ _
  · obtain ⟨e, dims, rfl, -⟩ := matMul_eq hv hw hr hq (h.rule (by rw [hop]; rfl))
    exact hnegative _ _

/-- With a misfit, a rule gives a type that is not coherent. -/
theorem Node.Misfit.not_countsAxes (hmisfit : n.Misfit)
    (hin : ∀ v ∈ n.inputs, v.type.CountsAxes) (h : n.TypedAs t) : ¬ t.CountsAxes := by
  cases hmisfit with
  | outside hdrops hr hknown hne hplace =>
    obtain ⟨hapart, e, rfl⟩ := hdrops.eq hr h
    rw [dropped_countsAxes_iff hr hapart]
    exact not_not.mpr (.inr ⟨hne, hknown, hplace⟩)
  | tooMany hdrops hr hmany =>
    obtain ⟨hapart, e, rfl⟩ := hdrops.eq hr h
    rw [dropped_countsAxes_iff hr hapart]
    exact not_not.mpr (.inl hmany)
  | @selection x i ds is axis place next hop hx hi hne hds his haxis hplace hnext hapart haxes =>
    obtain ⟨r, hr⟩ := input_countsAxes hin hx
    obtain ⟨q, hq⟩ := input_countsAxes hin hi
    obtain ⟨axis', haxis', ⟨ds', is', place', next', hds', his', hplace', hnext', rfl⟩ |
      ⟨hnone, -⟩⟩ := gather_eq hx hi hne hr hq (h.rule (by rw [hop]; rfl))
    · obtain rfl := Except.ok.inj (haxis.symm.trans haxis')
      obtain rfl := Option.some.inj (hds.symm.trans hds')
      obtain rfl := Option.some.inj (his.symm.trans his')
      obtain rfl := Except.ok.inj (hplace.symm.trans hplace')
      obtain rfl := Except.ok.inj (hnext.symm.trans hnext')
      rw [← hr.length ds hds, ← hq.length is his, replaced_countsAxes_iff]
      exact not_not.mpr (.inr ⟨hapart, haxes⟩)
    · simp [hds, his] at hnone
  | @scalars v w hop hv hw hvr hwr =>
    obtain ⟨r, hr⟩ := input_countsAxes hin hv
    obtain ⟨q, hq⟩ := input_countsAxes hin hw
    obtain rfl : r = 0 := Size.ofNat_inj.mp (hr.rank.symm.trans hvr)
    obtain rfl : q = 0 := Size.ofNat_inj.mp (hq.rank.symm.trans hwr)
    exact scalars_not_countsAxes hop hv hw hr hq h
  | window hslides hr hknown hcovers hcount =>
    obtain ⟨ds, kernel, spatial, sizes, hds, rfl, hspatial, hsizes, htwo, rfl⟩ :=
      hslides.eq hr hknown h
    refine not_countsAxes_of_length (by omega) ?_
    obtain ⟨-, hlength⟩ | ⟨_, hcovers', -⟩ := length_spatialDims hspatial
    · rwa [hsizes, hlength]
    · cases hcovers.symm.trans hcovers'
  | strides hslides hr hknown hcovers hstrides hcount =>
    obtain ⟨ds, kernel, spatial, sizes, hds, rfl, hspatial, hsizes, htwo, rfl⟩ :=
      hslides.eq hr hknown h
    refine not_countsAxes_of_length (by omega) ?_
    obtain ⟨hcovers', -⟩ | ⟨_, -, hstrides', hlength⟩ := length_spatialDims hspatial
    · cases hcovers.symm.trans hcovers'
    · obtain rfl := Except.ok.inj (hstrides.symm.trans hstrides')
      rwa [hsizes, hlength, hr.length ds hds]
  | transposed hop hx hw hr hknown hknown' hcount =>
    obtain ⟨ds, hds⟩ := Option.isSome_iff_exists.mp hknown
    obtain ⟨ws, hws⟩ := Option.isSome_iff_exists.mp hknown'
    obtain ⟨count, axes, sizes, hspatial, haxes, hsizes, hne, rfl⟩ :=
      convTranspose_eq hx hw hds hws (h.rule (rule?_transposedConvolutions hop))
    rw [hr.rank] at hspatial ⊢
    rw [countBeside_spatialCount hspatial haxes] at hsizes
    refine not_countsAxes_of_length ?_ (hsizes ▸ hcount)
    rintro rfl
    exact hne (List.length_eq_zero_iff.mp (hr.length ds hds))
  | count hrank hno =>
    obtain ⟨e, rfl⟩ := hrank.eq h
    rwa [countsAxes_ofRank_none]

lemma Node.Misfit.exists_rule (hmisfit : n.Misfit) : ∃ rule, rule? n.operator = some rule := by
  have hdrops : ∀ {x places}, n.Drops x places → ∃ rule, rule? n.operator = some rule := by
    rintro x places (⟨hop, -⟩ | ⟨hop, -⟩)
    · exact ⟨squeeze, by rw [hop]; rfl⟩
    · exact ⟨reduce, rule?_reductions hop⟩
  have hslides : ∀ {x axes}, n.Slides x axes → ∃ rule, rule? n.operator = some rule := by
    rintro x axes (⟨hop, -⟩ | ⟨hop, -⟩)
    · exact ⟨conv, rule?_convolutions hop⟩
    · exact ⟨pool, rule?_pools hop⟩
  cases hmisfit with
  | outside h | tooMany h => exact hdrops h
  | selection hop => exact ⟨gather, by rw [hop]; rfl⟩
  | scalars hop =>
    rcases hop with hop | hop
    · exact ⟨gather, by rw [hop]; rfl⟩
    · exact ⟨matMul, by rw [hop]; rfl⟩
  | window h | strides h => exact hslides h
  | transposed hop => exact ⟨convTranspose, rule?_transposedConvolutions hop⟩
  | count h =>
    rcases h with ⟨hop, -⟩ | ⟨hop, -⟩ | ⟨hop, -⟩
    · exact ⟨reshape, by rw [hop]; rfl⟩
    · exact ⟨constantOfShape, by rw [hop]; rfl⟩
    · exact ⟨unsqueeze, by rw [hop]; rfl⟩

lemma keepType_countsAxes (hin : ∀ v ∈ n.inputs, v.type.CountsAxes)
    (hout : ∀ v ∈ n.outputs, v.type.CountsAxes) : ∀ v ∈ keepType n, v.type.CountsAxes := by
  intro v hv
  unfold keepType at hv
  split at hv
  · exact hout v hv
  · next x vs hinputs =>
    obtain ⟨w, -, rfl⟩ := List.mem_map.mp hv
    exact hin x (by simp [hinputs])

/-- A node whose operands have coherent types gives its outputs coherent types, unless it has a
misfit. -/
theorem Node.infer_countsAxes_iff (hin : ∀ v ∈ n.inputs, v.type.CountsAxes)
    (hout : ∀ v ∈ n.outputs, v.type.CountsAxes) (hm : n.infer = .ok m) :
    (∀ v ∈ m.outputs, v.type.CountsAxes) ↔ ¬ n.Misfit := by
  simp only [Node.infer, Node.typedOutputs, Except.bind_eq_ok, Except.pure_eq_ok] at hm
  obtain ⟨vs, hvs, rfl⟩ := hm
  cases hrule : rule? n.operator with
  | none =>
    rw [hrule, Except.ok.injEq] at hvs
    refine iff_of_true (hvs ▸ keepType_countsAxes hin hout) fun hmisfit => ?_
    obtain ⟨rule, hsome⟩ := hmisfit.exists_rule
    cases hrule.symm.trans hsome
  | some rule =>
    rw [hrule] at hvs
    obtain ⟨t, ht, hvs⟩ := Except.bind_eq_ok.mp hvs
    cases houtputs : n.outputs with
    | nil => simp [houtputs, outOfRange] at hvs
    | cons v outputs =>
      rw [houtputs, Except.pure_eq_ok] at hvs
      subst hvs
      refine ⟨fun h hmisfit => ?_, fun hplain w hw => ?_⟩
      · exact hmisfit.not_countsAxes hin ⟨rule, hrule, ht⟩ (h _ List.mem_cons_self)
      · obtain rfl | hw := List.mem_cons.mp hw
        · exact rule_countsAxes hin hplain hrule ht
        · exact hout w (houtputs ▸ List.mem_cons_of_mem v hw)

/-- A pair whose axes at the given places are dropped. -/
def squeezedPair (axes : List Int) : Node where
  operator := .squeeze
  name := "squeeze1"
  inputs := [{ name := "x", type := .tensor .float32 2 (some [1, 2]) }]
  outputs := [{ name := "y" }]
  attributes := Table.insert ∅ "axes" (.ints axes)

lemma squeezedPair_inputs (axes : List Int) :
    ∀ v ∈ (squeezedPair axes).inputs, v.type.CountsAxes := by
  intro v hv
  obtain rfl := List.mem_singleton.mp hv
  exact ⟨2, rfl, fun ds hds => Option.some.inj hds ▸ rfl⟩

theorem Node.infer_countsAxes_iff_squeezedPair : ∃ m, (squeezedPair [-2]).infer = .ok m ∧
    m.outputs.map Value.type = [.tensor .float32 1 (some [2])] ∧
    ((∀ v ∈ m.outputs, v.type.CountsAxes) ↔ ¬ (squeezedPair [-2]).Misfit) := by
  obtain ⟨m, hm, htype⟩ : ∃ m, (squeezedPair [-2]).infer = .ok m ∧
      m.outputs.map Value.type = [.tensor .float32 1 (some [2])] :=
    Except.exists_ok (by decide +kernel)
  refine ⟨m, hm, htype, Node.infer_countsAxes_iff (squeezedPair_inputs [-2]) ?_ hm⟩
  intro v hv
  obtain rfl := List.mem_singleton.mp hv
  exact ⟨0, rfl, fun ds hds => by cases hds⟩

/-- A pair has no sixth axis. The result is given one axis, and the sizes of both. -/
theorem squeezedPair_incoherent : (∀ v ∈ (squeezedPair [5]).inputs, v.type.CountsAxes) ∧
    ∃ m, (squeezedPair [5]).infer = .ok m ∧
      m.outputs.map Value.type = [.tensor .float32 1 (some [1, 2])] ∧
      ¬ ∀ v ∈ m.outputs, v.type.CountsAxes := by
  obtain ⟨m, hm, htype⟩ : ∃ m, (squeezedPair [5]).infer = .ok m ∧
      m.outputs.map Value.type = [.tensor .float32 1 (some [1, 2])] :=
    Except.exists_ok (by decide +kernel)
  refine ⟨squeezedPair_inputs [5], m, hm, htype, fun h => ?_⟩
  obtain ⟨v, hv, hvt⟩ := List.mem_map.mp (htype ▸ List.mem_singleton_self _)
  obtain ⟨r, hr⟩ := h v hv
  have hone : r = 1 := Size.ofNat_inj.mp (hr.rank.symm.trans (hvt ▸ rfl))
  have htwo : 2 = r := hr.length [1, 2] (hvt ▸ rfl)
  omega

end TensorGraph
