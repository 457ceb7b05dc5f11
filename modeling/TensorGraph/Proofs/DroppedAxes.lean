import TensorGraph.Proofs.CountedAxes

/-!
# Dropped axes

Places along a tensor and the axes that stand there. Places that are apart take one axis away each,
if each of them is the place of an axis (`countP_isAmong`).
-/

namespace TensorGraph

open Typing

variable {places : List Size} {p : Size} {r : Nat}

/-- A size is equal to one natural number at most. -/
lemma Size.ofNat_inj_of_equals {i j : Nat} (hi : p.equals (.ofNat i) = true)
    (hj : p.equals (.ofNat j) = true) : i = j := by
  cases p with
  | whole a =>
    rw [Size.ofNat, Size.equals_whole, decide_eq_true_iff] at hi hj
    omega
  | odd v => simp [Size.equals, Size.ofNat, Size.number, Binary.Number.compare?] at hi
  | real x =>
    simp only [Size.equals, Size.ofNat, Size.number] at hi hj
    cases hx : x.number with
    | nan => simp [hx, Binary.Number.compare?] at hi
    | infinite s => cases s <;> simp [hx, Binary.Number.compare?] at hi
    | finite s m e =>
      -- both numbers are counted in the units of the finer one
      have hunits : ∀ k : Nat, Binary.Number.inUnits (min e 0) (decide ((k : Int) < 0)) k 0 =
          k * 2 ^ (0 - min e 0).toNat := by
        intro k
        simp only [Binary.Number.inUnits, decide_eq_true_iff,
          if_neg (Int.not_lt.mpr (Int.natCast_nonneg k))]
      simp only [hx, Binary.Number.compare?, Option.some.injEq, Int.compare_eq_eq,
        Int.natAbs_natCast, hunits, decide_eq_true_iff] at hi hj
      have hpos : (2 : Int) ^ (0 - min e 0).toNat ≠ 0 := Int.pow_ne_zero (by decide)
      exact Int.ofNat_inj.mp (Int.eq_of_mul_eq_mul_right hpos (hi.symm.trans hj))

/-- No axis is at two of the places. -/
def Apart (places : List Size) : Prop :=
  places.Pairwise fun p q => ∀ i : Nat, p.equals (.ofNat i) = true → q.equals (.ofNat i) = false

lemma countP_equals (p : Size) (r : Nat) : (List.range r).countP (fun i => p.equals (.ofNat i)) =
    if ∃ i < r, p.equals (.ofNat i) = true then 1 else 0 := by
  induction r with
  | zero => simp
  | succ r ih =>
    rw [List.range_succ, List.countP_append, ih, List.countP_singleton]
    by_cases hlast : p.equals (.ofNat r) = true
    · have hnone : ¬ ∃ i < r, p.equals (.ofNat i) = true := by
        rintro ⟨i, hi, hp⟩
        exact Nat.ne_of_lt hi (Size.ofNat_inj_of_equals hp hlast)
      rw [if_neg hnone, if_pos hlast, if_pos ⟨r, Nat.lt_succ_self r, hlast⟩]
    · have hiff : (∃ i < r + 1, p.equals (.ofNat i) = true) ↔
          ∃ i < r, p.equals (.ofNat i) = true := by
        refine ⟨?_, fun ⟨i, hi, hp⟩ => ⟨i, by omega, hp⟩⟩
        rintro ⟨i, hi, hp⟩
        obtain hi | rfl := Nat.lt_succ_iff_lt_or_eq.mp hi
        · exact ⟨i, hi, hp⟩
        · exact absurd hp hlast
      rw [if_neg hlast, if_congr hiff rfl rfl, Nat.add_zero]

lemma countP_or {α : Type} {f g : α → Bool} {as : List α} (h : ∀ a ∈ as, f a = true → g a = false) :
    as.countP (fun a => f a || g a) = as.countP f + as.countP g := by
  induction as with
  | nil => rfl
  | cons a as ih =>
    have ha := h a (by simp)
    simp only [List.countP_cons, ih fun b hb => h b (by simp [hb])]
    cases hf : f a <;> cases hg : g a <;> simp_all <;> omega

/-- Places that are apart take at most one axis away each; if they take one each, they are the
places of axes. -/
lemma countP_isAmong (h : Apart places) :
    (List.range r).countP (isAmong places) ≤ places.length ∧
      ((List.range r).countP (isAmong places) = places.length ↔
        ∀ p ∈ places, ∃ i < r, p.equals (.ofNat i) = true) := by
  induction places with
  | nil => simp [isAmong]
  | cons p places ih =>
    obtain ⟨hp, hrest⟩ := List.pairwise_cons.mp h
    obtain ⟨hle, hiff⟩ := ih hrest
    have hsum : (List.range r).countP (isAmong (p :: places)) =
        (if ∃ i < r, p.equals (.ofNat i) = true then 1 else 0) +
          (List.range r).countP (isAmong places) := by
      rw [← countP_equals, ← countP_or]
      · rfl
      · intro i _ hi
        simp only [isAmong, List.any_eq_false, Bool.not_eq_true]
        exact fun q hq => hp q hq i hi
    rw [hsum, List.length_cons, List.forall_mem_cons, ← hiff]
    split
    · next hex =>
      simp only [hex, true_and]
      omega
    · next hex =>
      simp only [hex, false_and, iff_false]
      omega

/-- Every size is dropped or kept. -/
lemma length_dropPlaces (places ds : List Size) : (dropPlaces places ds).length +
    (List.range ds.length).countP (isAmong places) = ds.length := by
  have hkept : (dropPlaces places ds).length =
      (List.range ds.length).countP fun i => ! isAmong places i := by
    have hrange := List.zipIdx_map_snd 0 ds
    rw [← List.range_eq_range'] at hrange
    rw [← hrange, List.countP_map, dropPlaces, List.length_map, ← List.countP_eq_length_filter]
    rfl
  have hall : ds.length = (List.range ds.length).countP (isAmong places) +
      (List.range ds.length).countP fun i => ! isAmong places i := by
    simpa using List.length_eq_countP_add_countP (isAmong places) (l := List.range ds.length)
  omega

/-! ## Places of a node -/

lemma pairwise_eraseDupsBy {α : Type} (f : α → α → Bool) (as : List α) :
    (as.eraseDupsBy f).Pairwise (fun a b => f b a = false) ∧ ∀ a ∈ as.eraseDupsBy f, a ∈ as := by
  induction hk : as.length using Nat.strongRecOn generalizing as with
  | ind k ih =>
    cases as with
    | nil => simp
    | cons a as =>
      have hless : (as.filter fun b => f b a = false).length < k := by
        rw [← hk, List.length_cons]
        exact Nat.lt_succ_of_le (List.length_filter_le _ _)
      obtain ⟨hpair, hmem⟩ := ih _ hless _ rfl
      rw [List.eraseDupsBy_cons]
      refine ⟨List.pairwise_cons.mpr ⟨fun b hb => ?_, hpair⟩, fun b hb => ?_⟩
      · simpa using List.of_mem_filter (hmem b hb)
      · obtain rfl | hb := List.mem_cons.mp hb
        · exact List.mem_cons_self
        · exact List.mem_cons_of_mem a (List.mem_of_mem_filter (hmem b hb))

lemma distinctPlaces_apart {axes : List Int} (h : distinctPlaces (.ofNat r) axes = .ok places) :
    Apart places := by
  simp only [distinctPlaces, Except.bind_eq_ok, Except.pure_eq_ok] at h
  obtain ⟨ps, hps, rfl⟩ := h
  have hwhole : ∀ p ∈ ps, ∃ k : Int, p = .whole k := by
    intro p hp
    obtain ⟨a, -, ha⟩ := forall₂_exists_of_mem (Except.mapM_eq_ok hps).flip hp
    unfold normalizeAxis at ha
    split at ha
    · exact ⟨a + r, (Except.ok.inj ha).symm⟩
    · exact ⟨a, (Except.ok.inj ha).symm⟩
  obtain ⟨hpair, hmem⟩ := pairwise_eraseDupsBy Size.equals ps
  refine hpair.imp_of_mem fun {p q} hp hq hne i hpi => ?_
  obtain ⟨a, rfl⟩ := hwhole p (hmem p hp)
  obtain ⟨b, rfl⟩ := hwhole q (hmem q hq)
  simp only [Size.ofNat, Size.equals_whole, decide_eq_true_iff, decide_eq_false_iff_not]
    at hne hpi ⊢
  omega

lemma reducedPlaces_apart {n : Node} (h : reducedPlaces n (.ofNat r) = .ok places) :
    Apart places := by
  simp only [reducedPlaces] at h
  split at h
  · simp only [Except.bind_eq_ok, Except.pure_eq_ok] at h
    obtain ⟨p, -, rfl⟩ := h
    exact List.pairwise_singleton _ _
  · obtain ⟨axes, -, h⟩ := Except.bind_eq_ok.mp h
    split at h
    · exact distinctPlaces_apart h
    · simp only [Except.bind_eq_ok, Except.pure_eq_ok, axesUpTo] at h
      obtain ⟨_, ⟨k, -, rfl⟩, rfl⟩ := h
      refine List.pairwise_map.mpr ((List.nodup_range (n := k)).imp fun {a b} hab i hai => ?_)
      rw [Size.equals_ofNat, decide_eq_true_iff] at hai
      rw [Size.equals_ofNat, decide_eq_false_iff_not, ← hai]
      exact hab.symm

end TensorGraph
