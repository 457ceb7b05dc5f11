import TensorGraph.Proofs.WidenedShapes

/-!
# Axes that are added and dropped again

Axes of size one are added at places among those of the result, and the same axes dropped from the
result give the type back, in whatever order they are listed and from whichever end they are counted
(`Node.squeeze_unsqueeze`). In between, the sizes stand around the ones in order.
-/

namespace TensorGraph

open Typing ValueType

/-- A scalar, or a tensor of `r` axes, one at least, whose sizes, if they are known, are as many. -/
inductive ValueType.IsArray : ValueType → Nat → Prop where
  | scalar (e : ElementType) : IsArray (.scalar e) 0
  | tensor {e : ElementType} {r : Nat} {dims : Option (List Size)} (hpos : 1 ≤ r)
    (hlength : ∀ ds, dims = some ds → ds.length = r) : IsArray (.tensor e (.ofNat r) dims) r

/-- The node has an operand of type `t` and an output, and `axes` are given by its second operand or
by its attribute. -/
structure Node.ActsAlong (n : Node) (t : ValueType) (axes : List Int) : Prop where
  data : ∃ x, n.input 0 = .ok x ∧ x.type = t
  output : ∃ y, n.output 0 = .ok y
  axes : n.integers? 1 "axes" = .ok (some axes)

variable {α : Type} {one : α} {axes ps : List Int} {us vs : List α} {sizes widened : List Size}
  {n m : Node} {t u : ValueType} {e : ElementType} {i k q r : Nat}

lemma countP_from_succ (ps : List Int) (i : Nat) : ps.countP (fun p => (i : Int) ≤ p) =
    ps.count (i : Int) + ps.countP (fun p => ((i + 1 : Nat) : Int) ≤ p) := by
  induction ps with
  | nil => rfl
  | cons p ps ih =>
    rw [List.countP_cons, List.countP_cons, List.count_cons, ih]
    simp only [decide_eq_true_eq, beq_iff_eq]
    repeat' split
    all_goals omega

/-- Different places below `i + k` are at most `k` from `i` on. -/
lemma countP_le (hnodup : ps.Nodup) (hlt : ∀ p ∈ ps, p < q) (hq : i + k = q) :
    ps.countP (fun p => (i : Int) ≤ p) ≤ k := by
  induction k generalizing i with
  | zero =>
    rw [Nat.le_zero, List.countP_eq_zero]
    intro p hp
    have hp := hlt p hp
    rw [decide_eq_true_eq]
    omega
  | succ k ih =>
    have hrest := ih (i := i + 1) (by omega)
    have hfirst := List.nodup_iff_count_le_one.mp hnodup (i : Int)
    rw [countP_from_succ]
    omega

/-- A list is widened if it has as many entries as there are places from `i` on without a one. -/
lemma exists_widened_from (one : α) (hnodup : ps.Nodup) (hlt : ∀ p ∈ ps, p < q) (hq : i + k = q)
    (hcount : us.length + ps.countP (fun p => (i : Int) ≤ p) = k) :
    ∃ vs, Widened one ps i us vs := by
  -- at each place either a one is due or an entry of the list, never neither
  induction k generalizing i us with
  | zero =>
    obtain rfl := List.length_eq_zero_iff.mp (Nat.eq_zero_of_add_eq_zero_right hcount)
    obtain rfl : i = q := hq
    exact ⟨[], .nil hlt⟩
  | succ k ih =>
    rw [countP_from_succ] at hcount
    by_cases hi : (i : Int) ∈ ps
    · rw [List.count_eq_one_of_mem hnodup hi] at hcount
      obtain ⟨vs, hvs⟩ : ∃ vs, Widened one ps (i + 1) us vs := ih (by omega) (by omega)
      exact ⟨one :: vs, .one hi hvs⟩
    · rw [List.count_eq_zero_of_not_mem hi] at hcount
      cases us with
      | nil =>
        have hle := countP_le (i := i + 1) (k := k) hnodup hlt (by omega)
        rw [List.length_nil] at hcount
        omega
      | cons a us =>
        rw [List.length_cons] at hcount
        obtain ⟨vs, hvs⟩ : ∃ vs, Widened one ps (i + 1) us vs := ih (by omega) (by omega)
        exact ⟨a :: vs, .keep hi hvs⟩

lemma DistinctAxes.place_lt (h : DistinctAxes q axes) : ∀ p ∈ axisPlaces q axes, p < q := by
  intro p hp
  obtain ⟨a, ha, rfl⟩ := List.mem_map.mp hp
  have hrange := h.range a ha
  split <;> omega

/-- Axes that are different places of the result can be added. -/
lemma DistinctAxes.exists_widened (h : DistinctAxes (us.length + axes.length) axes) (one : α) :
    ∃ vs, Widened one (axisPlaces (us.length + axes.length) axes) 0 us vs := by
  have hlength : (axisPlaces (us.length + axes.length) axes).length = axes.length :=
    List.length_map _
  have hall : (axisPlaces (us.length + axes.length) axes).countP (fun p => ((0 : Nat) : Int) ≤ p) =
      (axisPlaces (us.length + axes.length) axes).length :=
    List.countP_eq_length.mpr fun p hp => decide_eq_true (h.place_nonneg p hp)
  exact exists_widened_from one h.nodup h.place_lt (Nat.zero_add _) (by rw [hall, hlength])

lemma isAmong_whole (ps : List Int) (i : Nat) :
    isAmong (ps.map .whole) i = decide ((i : Int) ∈ ps) := by
  rw [isAmong, List.any_map, Bool.eq_iff_iff, List.any_eq_true, decide_eq_true_iff]
  constructor
  · rintro ⟨p, hp, heq⟩
    obtain rfl : p = i := of_decide_eq_true heq
    exact hp
  · exact fun hi => ⟨i, hi, decide_eq_true rfl⟩

/-- What has been added is dropped, and nothing else. -/
lemma Widened.dropPlaces (h : Widened (1 : Size) ps 0 sizes widened) :
    dropPlaces (ps.map .whole) widened = sizes := by
  have hfrom : ∀ {i : Nat} {us vs : List Size}, Widened 1 ps i us vs →
      ((vs.zipIdx i).filter fun e => ! isAmong (ps.map .whole) e.2).map Prod.fst = us := by
    intro i us vs h
    induction h with
    | nil => rfl
    | one hi _ ih => simpa [isAmong_whole, hi] using ih
    | keep hi _ ih => simpa [isAmong_whole, hi] using ih
  exact hfrom h

lemma eraseDupsBy_eq_self {f : α → α → Bool} (h : us.Pairwise fun a b => f b a = false) :
    us.eraseDupsBy f = us := by
  induction us with
  | nil => rfl
  | cons a us ih =>
    obtain ⟨hfirst, hrest⟩ := List.pairwise_cons.mp h
    have hfilter : us.filter (fun b => f b a = false) = us :=
      List.filter_eq_self.mpr fun b hb => decide_eq_true (hfirst b hb)
    rw [List.eraseDupsBy_cons, hfilter, ih hrest]

/-- Axes at different places are not merged. -/
lemma distinctPlaces_of_nodup (h : (axisPlaces q axes).Nodup) :
    distinctPlaces (.ofNat q) axes = .ok ((axisPlaces q axes).map .whole) := by
  have hplaces : axes.mapM (normalizeAxis (.ofNat q)) = .ok ((axisPlaces q axes).map .whole) := by
    rw [axisPlaces, List.map_map]
    exact Except.mapM_eq_ok_map fun a _ => normalizeAxis_ofNat a
  have hpair : ((axisPlaces q axes).map Size.whole).Pairwise fun a b => b.equals a = false := by
    rw [List.pairwise_map]
    exact h.imp fun hne => decide_eq_false (Ne.symm hne)
  rw [distinctPlaces, hplaces, Except.ok_bind, eraseDupsBy_eq_self hpair]
  rfl

lemma ValueType.IsArray.hasAxes (h : t.IsArray r) : t.HasAxes r := by
  cases h with
  | scalar e => exact hasAxes_scalar e
  | tensor _ hlength => exact ⟨rfl, hlength⟩

/-- An array without known sizes is a tensor. -/
lemma ValueType.IsArray.pos (h : t.IsArray r) (hdims : t.dims? = none) : 0 < r := by
  cases h with
  | scalar e => cases hdims
  | tensor hpos _ => exact hpos

lemma ValueType.IsArray.ofRank_eq (h : t.IsArray r) : .ofRank t.element (.ofNat r) t.dims? = t := by
  cases h with
  | scalar e => rfl
  | tensor hpos _ => exact ofRank_of_pos hpos _

lemma unsqueezeAt_of_unknown (hr : t.rank = .ofNat r) (hdims : t.dims? = none) :
    unsqueezeAt t axes = .ok (.ofRank t.element (.ofNat (r + axes.length)) none) := by
  rw [unsqueezeAt, rank_add_length hr, Except.ok_bind, hdims]
  rfl

/-- Different axes are dropped from a type of `r` more. -/
lemma squeezeAt_of_nodup (hr : u.rank = .ofNat (r + axes.length))
    (hnodup : (axisPlaces (r + axes.length) axes).Nodup) :
    squeezeAt u axes = .ok (.ofRank u.element (.ofNat r)
      (u.dims?.map (dropPlaces ((axisPlaces (r + axes.length) axes).map .whole)))) := by
  have hleft : ((r + axes.length : Nat) : Int) -
      ((axisPlaces (r + axes.length) axes).map Size.whole).length = r := by
    rw [List.length_map, axisPlaces, List.length_map, Nat.cast_add, Int.add_sub_cancel]
  rw [squeezeAt_of_places hr (distinctPlaces_of_nodup hnodup), hleft, Size.ofNat]

/-- Adding axes gives a type from which dropping them gives the first one back. -/
lemma exists_unsqueezeAt (ht : t.IsArray r) (hd : DistinctAxes (r + axes.length) axes)
    (hroom : t.dims?.isSome → r + axes.length ≤ 2 ^ 63) :
    ∃ u, unsqueezeAt t axes = .ok u ∧
      (∀ sizes, t.dims? = some sizes → ∃ widened, u.dims? = some widened ∧
        Widened 1 (axisPlaces (r + axes.length) axes) 0 sizes widened) ∧
      squeezeAt u axes = .ok t := by
  have hr := ht.hasAxes
  have hback := ht.ofRank_eq
  cases hdims : t.dims? with
  | none =>
    have hpos : 0 < r + axes.length := Nat.add_pos_left (ht.pos hdims) _
    refine ⟨_, unsqueezeAt_of_unknown hr.rank hdims, by simp, ?_⟩
    rw [ofRank_of_pos hpos, squeezeAt_of_nodup rfl hd.nodup]
    rw [hdims] at hback
    exact congrArg Except.ok hback
  | some sizes =>
    obtain rfl := hr.length sizes hdims
    obtain ⟨widened, hwidened⟩ : ∃ widened,
        Widened (1 : Size) (axisPlaces (sizes.length + axes.length) axes) 0 sizes widened :=
      hd.exists_widened 1
    have hlength : widened.length = sizes.length + axes.length := hwidened.length_eq hd
    have hsigned : ∀ p ∈ axisPlaces (sizes.length + axes.length) axes, p < 2 ^ 63 := by
      intro p hp
      have hlt := hd.place_lt p hp
      have hle := hroom (by rw [hdims]; rfl)
      omega
    have hadded := (unsqueezeAt_eq_ok_iff hr.rank hdims hd hwidened).mpr ⟨hsigned, rfl⟩
    refine ⟨_, hadded, ?_, ?_⟩
    · rintro _ ⟨⟩
      exact ⟨widened, dims?_ofRank_of_length hlength, hwidened⟩
    · have hrank : (ValueType.ofRank t.element (.ofNat (sizes.length + axes.length))
          (some widened)).rank = .ofNat (sizes.length + axes.length) := rank_ofRank _ _ _
      rw [squeezeAt_of_nodup hrank hd.nodup, dims?_ofRank_of_length hlength, element_ofRank,
        Option.map_some, hwidened.dropPlaces, ← hdims, hback]

/-! ## Nodes -/

namespace Node

lemma ActsAlong.resultType_unsqueeze (h : n.ActsAlong t axes) (hop : n.operator = .unsqueeze) :
    n.resultType = unsqueezeAt t axes := by
  obtain ⟨x, hx, rfl⟩ := h.data
  obtain ⟨y, hy⟩ := h.output
  obtain ⟨ys, hys⟩ := output_zero_eq_ok.mp hy
  rw [resultType_eq (by rw [hop]; rfl) hys, unsqueeze, hx, Except.ok_bind, hy, Except.ok_bind,
    h.axes]
  rfl

lemma ActsAlong.resultType_squeeze (h : n.ActsAlong t axes) (hop : n.operator = .squeeze) :
    n.resultType = squeezeAt t axes := by
  obtain ⟨x, hx, rfl⟩ := h.data
  obtain ⟨y, hy⟩ := h.output
  obtain ⟨ys, hys⟩ := output_zero_eq_ok.mp hy
  rw [resultType_eq (by rw [hop]; rfl) hys, squeeze, hx, Except.ok_bind, hy, Except.ok_bind, h.axes]
  rfl

/-- Axes that are different places of the result are added to a scalar or a tensor. If its sizes are
known, they stand in a list, whose places fit signed words; those of the result are ones along the
axes, and the same in order beside them. Dropping the axes of the result gives the type back. -/
theorem squeeze_unsqueeze (hn : n.operator = .unsqueeze) (h : n.ActsAlong t axes)
    (ht : t.IsArray r) (hd : DistinctAxes (r + axes.length) axes)
    (hroom : t.dims?.isSome → r + axes.length ≤ 2 ^ 63) :
    ∃ u, n.resultType = .ok u ∧
      (∀ sizes, t.dims? = some sizes → ∃ widened, u.dims? = some widened ∧
        Widened 1 (axisPlaces (r + axes.length) axes) 0 sizes widened) ∧
      ∀ m : Node, m.operator = .squeeze → m.ActsAlong u axes → m.resultType = .ok t := by
  obtain ⟨u, hu, hsizes, hback⟩ := exists_unsqueezeAt ht hd hroom
  refine ⟨u, by rw [h.resultType_unsqueeze hn, hu], hsizes, fun m hm hback' => ?_⟩
  rw [hback'.resultType_squeeze hm, hback]

end Node

/-- A node that acts along the first and the last axis of its result, or of its operand `x`. -/
def alongEnds (o : Operator) (x : ValueType) : Node where
  operator := o
  name := "ends"
  inputs := [{ name := "x", type := x },
    { name := "axes", literal := some (.vector (.signed 64) ([-1, 0].map .int)) }]
  outputs := [{ name := "y" }]

lemma actsAlong_alongEnds (o : Operator) (x : ValueType) : (alongEnds o x).ActsAlong x [-1, 0] :=
  ⟨⟨_, rfl, rfl⟩, ⟨_, rfl⟩, congrArg (Except.map some) (Literal.toInts_vector (.signed 64) [-1, 0])⟩

theorem Node.squeeze_unsqueeze_ends : ∃ u,
    (alongEnds .unsqueeze (.tensor .float32 2 (some [2, 3]))).resultType = .ok u ∧
      (alongEnds .squeeze u).resultType = .ok (.tensor .float32 2 (some [2, 3])) := by
  have ht : (ValueType.tensor .float32 (.ofNat 2) (some [2, 3])).IsArray 2 :=
    .tensor (by decide) fun _ hds => Option.some.inj hds ▸ rfl
  have hd : DistinctAxes (2 + [(-1 : Int), 0].length) [-1, 0] := ⟨by decide, by decide⟩
  obtain ⟨u, hu, -, hback⟩ :=
    Node.squeeze_unsqueeze rfl (actsAlong_alongEnds .unsqueeze _) ht hd (by decide)
  exact ⟨u, hu, hback _ rfl (actsAlong_alongEnds .squeeze u)⟩

end TensorGraph
