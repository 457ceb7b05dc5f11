import TensorGraph.Proofs.TypingView

/-!
# Counted axes

A type is coherent if its number of axes is a natural number and its sizes, if they are known, are
as many. Most rules of typing give a coherent type, whatever the attributes of the node say.
-/

namespace TensorGraph

open Typing

/-- A type of `r` axes: their sizes, if they are known, are as many. -/
structure ValueType.HasAxes (t : ValueType) (r : Nat) : Prop where
  rank : t.rank = .ofNat r
  length : ∀ ds, t.dims? = some ds → ds.length = r

/-- The number of axes is a natural number, and their sizes, if they are known, are as many. -/
def ValueType.CountsAxes (t : ValueType) : Prop := ∃ r, t.HasAxes r

/-- The size can be a number of axes. A zero of any kind leaves none. -/
def Size.IsRank (s : Size) : Prop := s.equals 0 = true ∨ ∃ k : Nat, s = .ofNat k

variable {n : Node} {t : ValueType} {v : Value} {vs : List Value} {e : ElementType}
  {s : Size} {dims : Option (List Size)} {r q : Nat}

namespace Size

lemma ofNat_inj : ofNat r = ofNat q ↔ r = q := by
  refine ⟨fun h => ?_, congrArg _⟩
  have := whole.inj h
  omega

lemma equals_ofNat (r q : Nat) : (ofNat r).equals (ofNat q) = decide (r = q) := by
  refine (equals_whole r q).trans ?_
  simp only [Int.ofNat_inj]

lemma less_ofNat (r q : Nat) : (ofNat r).less (ofNat q) = .ok (decide (r < q)) := by
  refine (less_whole r q).trans ?_
  simp only [Int.ofNat_lt]

lemma larger_ofNat (r q : Nat) : (ofNat r).larger (ofNat q) = .ok (ofNat (max r q)) := by
  unfold larger
  rw [less_ofNat, Except.ok_bind]
  rcases Nat.lt_or_ge r q with h | h
  · simp [h, Nat.max_eq_right (Nat.le_of_lt h), pure, Except.pure]
  · simp [Nat.not_lt.mpr h, Nat.max_eq_left h, pure, Except.pure]

lemma smaller_ofNat (r q : Nat) : (ofNat r).smaller (ofNat q) = .ok (ofNat (min r q)) := by
  unfold smaller
  rw [less_ofNat, Except.ok_bind]
  rcases Nat.lt_or_ge q r with h | h
  · simp [h, Nat.min_eq_right (Nat.le_of_lt h), pure, Except.pure]
  · simp [Nat.not_lt.mpr h, Nat.min_eq_left h, pure, Except.pure]

end Size

namespace ValueType

lemma hasAxes_scalar (e : ElementType) : (scalar e).HasAxes 0 :=
  ⟨rfl, fun _ hds => Option.some.inj hds ▸ rfl⟩

lemma hasAxes_shape (s : Size) : (shape s).HasAxes 1 :=
  ⟨rfl, fun _ hds => Option.some.inj hds ▸ rfl⟩

lemma countsAxes_ofRank : (ofRank e s dims).CountsAxes ↔
    s.equals 0 = true ∨ ∃ k : Nat, s = .ofNat k ∧ ∀ ds, dims = some ds → ds.length = k := by
  unfold ofRank
  split
  · next h => exact iff_of_true ⟨0, hasAxes_scalar e⟩ (.inl h)
  · next h =>
    rw [or_iff_right h]
    exact exists_congr fun k => ⟨fun hk => ⟨hk.rank, hk.length⟩, fun hk => ⟨hk.1, hk.2⟩⟩

lemma countsAxes_ofRank_none : (ofRank e s none).CountsAxes ↔ s.IsRank := by
  simp [countsAxes_ofRank, Size.IsRank]

lemma countsAxes_ofRank_whole {a : Int} : (ofRank e (.whole a) dims).CountsAxes ↔
    a = 0 ∨ 0 ≤ a ∧ ∀ ds, dims = some ds → (ds.length : Int) = a := by
  rw [countsAxes_ofRank]
  change decide (a = 0) = true ∨ _ ↔ _
  rw [decide_eq_true_iff]
  refine or_congr_right ⟨?_, ?_⟩
  · rintro ⟨k, hk, h⟩
    obtain rfl := Size.whole.inj hk
    exact ⟨Int.natCast_nonneg k, fun ds hds => congrArg _ (h ds hds)⟩
  · rintro ⟨ha, h⟩
    obtain ⟨k, rfl⟩ := Int.eq_ofNat_of_zero_le ha
    exact ⟨k, rfl, fun ds hds => Int.ofNat_inj.mp (h ds hds)⟩

lemma countsAxes_ofRank_ofNat : (ofRank e (.ofNat r) dims).CountsAxes ↔
    r = 0 ∨ ∀ ds, dims = some ds → ds.length = r := by
  have hzero : (Size.ofNat r).equals 0 = decide (r = 0) := Size.equals_ofNat r 0
  simp [countsAxes_ofRank, hzero, Size.ofNat_inj]

/-- A type with as many known sizes as it has axes. -/
lemma countsAxes_of_length {ds : List Size} (h : ds.length = r) :
    (ofRank e (.ofNat r) (some ds)).CountsAxes :=
  countsAxes_ofRank_ofNat.mpr (.inr fun _ hds => Option.some.inj hds ▸ h)

lemma countsAxes_of_unknown (e : ElementType) (r : Nat) : (ofRank e (.ofNat r) none).CountsAxes :=
  countsAxes_ofRank_none.mpr (.inr ⟨r, rfl⟩)

end ValueType

open ValueType

lemma length_meetReversed {clash : Error} {as bs cs : List Size}
    (h : meetReversed clash as bs = .ok cs) : cs.length = max as.length bs.length := by
  induction as generalizing bs cs with
  | nil =>
    rw [meetReversed] at h
    simp [← (Except.mapM_eq_ok h).length_eq]
  | cons a as ih =>
    cases bs with
    | nil =>
      rw [meetReversed] at h
      · simp [← (Except.mapM_eq_ok h).length_eq]
      · simp
    | cons b bs =>
      simp only [meetReversed, Except.bind_eq_ok, Except.pure_eq_ok] at h
      obtain ⟨c, -, cs, hcs, rfl⟩ := h
      simp only [List.length_cons, ih hcs]
      omega

lemma length_broadcastDims {as bs cs : List Size} (h : broadcastDims as bs = .ok cs) :
    cs.length = max as.length bs.length := by
  unfold broadcastDims at h
  obtain ⟨ds, hds, rfl⟩ := Except.map_eq_ok.mp h
  rw [List.length_reverse, length_meetReversed hds, List.length_reverse, List.length_reverse]

lemma length_foldlM_broadcastDims {shapes : List (List Size)} {ds es : List Size}
    (h : shapes.foldlM broadcastDims ds = .ok es) :
    es.length = (shapes.map List.length).foldl max ds.length := by
  induction shapes generalizing ds with
  | nil =>
    obtain rfl := Except.pure_eq_ok.mp h
    rfl
  | cons d shapes ih =>
    rw [List.foldlM_cons, Except.bind_eq_ok] at h
    obtain ⟨c, hc, h⟩ := h
    rw [ih h, length_broadcastDims hc]
    rfl

lemma foldlM_larger {rs : List Nat} (r : Nat) :
    (rs.map Size.ofNat).foldlM Size.larger (.ofNat r) = .ok (.ofNat (rs.foldl max r)) := by
  induction rs generalizing r with
  | nil => rfl
  | cons q rs ih => rw [List.map_cons, List.foldlM_cons, Size.larger_ofNat, Except.ok_bind, ih]; rfl

lemma maxRank_eq {rs : List Nat} (h : List.Forall₂ (fun v r => v.type.HasAxes r) vs rs) :
    maxRank vs = .ok (.ofNat (rs.foldl max 0)) := by
  have hranks : vs.map (·.type.rank) = rs.map Size.ofNat :=
    (map_eq_map_of_forall₂ h fun _ _ hv => hv.rank.symm).symm
  unfold maxRank
  rw [hranks]
  cases rs with
  | nil => rfl
  | cons r rs =>
    rw [List.map_cons, List.foldl_cons, Nat.zero_max]
    exact foldlM_larger r

lemma lengths_of_mapM {rs : List Nat} {shapes : List (List Size)}
    (h : List.Forall₂ (fun v r => v.type.HasAxes r) vs rs)
    (hshapes : vs.mapM (·.type.dims?) = some shapes) : shapes.map List.length = rs := by
  induction h generalizing shapes with
  | nil =>
    obtain rfl : [] = shapes := by simpa using hshapes
    rfl
  | cons hv _ ih =>
    simp only [List.mapM_cons, Option.bind_eq_bind, Option.bind_eq_some_iff, Option.pure_def,
      Option.some.injEq] at hshapes
    obtain ⟨ds, hds, shapes, hrest, rfl⟩ := hshapes
    rw [List.map_cons, hv.length ds hds, ih hrest]

lemma exists_ranks (h : ∀ v ∈ vs, v.type.CountsAxes) :
    ∃ rs : List Nat, List.Forall₂ (fun v r => v.type.HasAxes r) vs rs := by
  induction vs with
  | nil => exact ⟨[], .nil⟩
  | cons v vs ih =>
    obtain ⟨rs, hrs⟩ := ih fun w hw => h w (by simp [hw])
    obtain ⟨r, hr⟩ := h v (by simp)
    exact ⟨r :: rs, .cons hr hrs⟩

/-- Operands broadcast together have as many axes as the largest of them. -/
lemma broadcast_countsAxes {rank : Size} (hin : ∀ v ∈ vs, v.type.CountsAxes)
    (hrank : maxRank vs = .ok rank) (hdims : broadcastShape vs = .ok dims) :
    (ofRank e rank dims).CountsAxes := by
  obtain ⟨rs, hrs⟩ := exists_ranks hin
  obtain rfl := Except.ok.inj ((maxRank_eq hrs).symm.trans hrank)
  refine countsAxes_ofRank_ofNat.mpr (.inr ?_)
  rintro ds rfl
  unfold broadcastShape at hdims
  split at hdims
  · next shapes hshapes =>
    obtain ⟨es, hes, hsome⟩ := Except.map_eq_ok.mp hdims
    obtain rfl := Option.some.inj hsome
    rw [length_foldlM_broadcastDims hes, lengths_of_mapM hrs hshapes, List.length_nil]
  · cases hdims

section Rules

variable (hin : ∀ v ∈ n.inputs, v.type.CountsAxes)

include hin

lemma input_countsAxes {i : Nat} (hv : n.input i = .ok v) : v.type.CountsAxes :=
  hin v (List.mem_of_getElem? (Node.input_eq_ok.mp hv))

lemma entrywise_countsAxes (h : entrywise n = .ok t) : t.CountsAxes := by
  simp only [entrywise] at h
  split at h
  · cases h
  simp only [Except.bind_eq_ok, Except.pure_eq_ok] at h
  obtain ⟨e, -, rank, hrank, dims, hdims, rfl⟩ := h
  refine broadcast_countsAxes (fun v hv => hin v ?_) hrank hdims
  unfold presentOperands at hv
  split at hv
  · exact hv
  · exact List.mem_of_mem_filter hv

lemma select_countsAxes (h : select n = .ok t) : t.CountsAxes := by
  simp only [select] at h
  split at h
  · cases h
  simp only [Except.bind_eq_ok, Except.pure_eq_ok] at h
  obtain ⟨rank, hrank, dims, hdims, v, -, rfl⟩ := h
  exact broadcast_countsAxes hin hrank hdims

lemma cast_countsAxes (h : Typing.cast n = .ok t) : t.CountsAxes := by
  simp only [Typing.cast] at h
  split at h
  · cases h
  split at h
  · simp only [Except.bind_eq_ok, Except.pure_eq_ok] at h
    obtain ⟨e, -, v, hv, rfl⟩ := h
    obtain ⟨r, hr⟩ := input_countsAxes hin hv
    cases htype : v.type with
    | tensor _ dim dims =>
      rw [htype] at hr
      exact ⟨r, hr.rank, hr.length⟩
    | scalar _ => exact ⟨0, hasAxes_scalar e⟩
    | shape rank =>
      dsimp only
      split
      · exact ⟨1, hasAxes_shape rank⟩
      · exact ⟨1, rfl, fun ds hds => Option.some.inj hds ▸ rfl⟩
  · cases h

omit hin in
lemma constant_countsAxes (h : constant n = .ok t) : t.CountsAxes := by
  simp only [Typing.constant, Node.constant] at h
  split at h
  · simp only [Value.ofLiteral, Literal.type, Except.bind_eq_ok, Except.pure_eq_ok] at h
    obtain ⟨_, ⟨a, -, _, ⟨e, -, rfl⟩, rfl⟩, rfl⟩ := h
    cases hshape : a.shape with
    | nil => exact ⟨0, hasAxes_scalar e⟩
    | cons d ds =>
      refine ⟨(d :: ds).length, rfl, fun sizes hsizes => ?_⟩
      obtain rfl := Option.some.inj hsizes
      exact List.length_map _
  · cases h

omit hin in
lemma shape_countsAxes (h : Typing.shape n = .ok t) : t.CountsAxes := by
  simp only [Typing.shape] at h
  split at h
  · cases h
  simp only [Except.bind_eq_ok, Except.pure_eq_ok] at h
  obtain ⟨_, -, _, -, _, -, _, -, _, -, s, -, rfl⟩ := h
  exact ⟨1, hasAxes_shape s⟩

omit hin in
lemma length_keepZeros {ds es : List Size} {target : List Int}
    (h : keepZeros n ds target = .ok es) : es.length = target.length := by
  rw [← (Except.mapM_eq_ok h).length_eq, List.length_zipIdx]

omit hin in
lemma length_fillInferred {ds es target : List Size} (h : fillInferred ds target = .ok es) :
    es.length = target.length := by
  simp only [fillInferred] at h
  split at h
  · exact Except.ok.inj h ▸ rfl
  · simp only [Except.bind_eq_ok, Except.pure_eq_ok] at h
    obtain ⟨_, -, _, -, rfl⟩ := h
    exact List.length_set

omit hin in
lemma reshapeTo_countsAxes {u : ValueType} {target : List Int} (h : reshapeTo n u target = .ok t) :
    t.CountsAxes := by
  simp only [reshapeTo] at h
  split at h
  · cases h
  split at h
  · simp only [Except.bind_eq_ok, Except.pure_eq_ok] at h
    obtain ⟨kept, hkept, ds, hds, _, rfl, rfl⟩ := h
    exact countsAxes_of_length (by rw [length_fillInferred hds, length_keepZeros hkept])
  · rw [pure_bind, Except.pure_eq_ok] at h
    rw [← h]
    split
    · exact countsAxes_of_unknown _ _
    · exact countsAxes_of_length (List.length_map _)

omit hin in
lemma flatten_countsAxes (h : flatten n = .ok t) : t.CountsAxes := by
  simp only [flatten, Except.bind_eq_ok] at h
  obtain ⟨v, -, _, -, axis, -, h⟩ := h
  split at h
  · simp only [Except.bind_eq_ok, Except.pure_eq_ok] at h
    obtain ⟨_, -, _, -, _, -, _, rfl, rfl⟩ := h
    exact countsAxes_of_length (r := 2) rfl
  · rw [pure_bind, Except.pure_eq_ok] at h
    exact h ▸ countsAxes_of_unknown _ 2

lemma transpose_countsAxes (h : transpose n = .ok t) : t.CountsAxes := by
  simp only [transpose] at h
  split at h
  · cases h
  simp only [Except.bind_eq_ok] at h
  obtain ⟨v, hv, perm, -, h⟩ := h
  split at h
  · cases h
  next hlength =>
  obtain ⟨r, hr⟩ := input_countsAxes hin hv
  have hperm : r = perm.length := by simpa [hr.rank, Size.equals_ofNat] using hlength
  obtain ⟨axes, haxes, h⟩ := Except.bind_eq_ok.mp h
  rw [hr.rank] at h
  split at h
  · simp only [Except.bind_eq_ok, Except.map_eq_ok, Except.pure_eq_ok] at h
    obtain ⟨_, ⟨ds, hds, rfl⟩, rfl⟩ := h
    refine countsAxes_of_length ?_
    rw [← (Except.mapM_eq_ok hds).length_eq, ← (Except.mapM_eq_ok haxes).length_eq, hperm]
  · rw [pure_bind, Except.pure_eq_ok] at h
    exact h ▸ countsAxes_of_unknown _ r

lemma concat_countsAxes (h : concat n = .ok t) : t.CountsAxes := by
  simp only [concat] at h
  split at h
  · cases h
  split at h
  · simp only [Except.bind_eq_ok, Except.pure_eq_ok] at h
    obtain ⟨s, -, rfl⟩ := h
    exact ⟨1, hasAxes_shape s⟩
  obtain ⟨v, hv, h⟩ := Except.bind_eq_ok.mp h
  split at h
  · cases h
  obtain ⟨axis, -, h⟩ := Except.bind_eq_ok.mp h
  obtain ⟨vs, hvs⟩ := Node.input_zero_eq_ok.mp hv
  obtain ⟨r, hr⟩ := input_countsAxes hin hv
  rw [hr.rank] at h
  split at h
  · next shapes hshapes =>
    simp only [joinedShape, Except.map_eq_ok, Except.bind_eq_ok, Except.pure_eq_ok] at h
    obtain ⟨_, ⟨ds, ⟨_, -, _, -, _, -, rfl⟩, rfl⟩, rfl⟩ := h
    rw [hvs] at hshapes
    simp only [List.mapM_cons, Option.bind_eq_bind, Option.bind_eq_some_iff, Option.pure_def,
      Option.some.injEq] at hshapes
    obtain ⟨first, hfirst, rest, -, rfl⟩ := hshapes
    refine countsAxes_of_length ?_
    rw [List.length_set, List.headD_cons, hr.length first hfirst]
  · rw [pure_bind, Except.pure_eq_ok] at h
    exact h ▸ countsAxes_of_unknown _ r

lemma linear_countsAxes (h : linear n = .ok t) : t.CountsAxes := by
  simp only [linear, Except.bind_eq_ok] at h
  obtain ⟨v, hv, w, -, h⟩ := h
  split at h
  · cases h
  obtain ⟨r, hr⟩ := input_countsAxes hin hv
  rw [hr.rank] at h
  split at h
  · next sx sw hsx hsw =>
    simp only [Except.bind_eq_ok, Except.pure_eq_ok] at h
    obtain ⟨d, -, _, rfl, rfl⟩ := h
    refine countsAxes_ofRank_ofNat.mpr (or_iff_not_imp_left.mpr ?_)
    rintro hne ds hds
    obtain rfl := Option.some.inj hds
    have hclamp : Place.clamp r (-1) = r - 1 := by
      simp only [Place.clamp]
      split <;> omega
    simp only [Place.before, hr.length sx hsx, hclamp, List.length_append, List.length_take,
      List.length_singleton]
    omega
  · rw [pure_bind, Except.pure_eq_ok] at h
    exact h ▸ countsAxes_of_unknown _ r

omit hin in
lemma gemm_countsAxes (h : gemm n = .ok t) : t.CountsAxes := by
  simp only [gemm, Except.bind_eq_ok] at h
  obtain ⟨v, -, w, -, h⟩ := h
  split at h
  · simp only [Except.bind_eq_ok, Except.pure_eq_ok] at h
    obtain ⟨_, -, _, -, _, -, _, -, _, rfl, rfl⟩ := h
    exact countsAxes_of_length (r := 2) rfl
  · rw [pure_bind, Except.pure_eq_ok] at h
    exact h ▸ countsAxes_of_unknown _ 2

lemma globalPool_countsAxes (h : globalPool n = .ok t) : t.CountsAxes := by
  simp only [globalPool, Except.bind_eq_ok, Except.pure_eq_ok] at h
  obtain ⟨v, hv, rfl⟩ := h
  obtain ⟨r, hr⟩ := input_countsAxes hin hv
  rw [hr.rank]
  refine countsAxes_ofRank_ofNat.mpr (.inr fun ds hds => ?_)
  obtain ⟨sx, hsx, rfl⟩ := Option.map_eq_some_iff.mp hds
  simp only [List.length_append, List.length_take, List.length_replicate, hr.length sx hsx]
  omega

end Rules

end TensorGraph
