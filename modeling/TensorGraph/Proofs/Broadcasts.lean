import TensorGraph.Proofs.CountedAxes

/-!
# Broadcasts of integer sizes

Integer sizes are broadcast into integer sizes (`broadcastDims_whole`): matched from the last axis back,
each is the greater of two that are equal or one of which is one.
-/

namespace TensorGraph

open Typing

variable {clash : Error} {as bs cs ds : List Int}

lemma larger_whole (a b : Int) : (Size.whole a).larger (.whole b) = .ok (.whole (max a b)) := by
  unfold Size.larger
  rw [Size.less_whole, Except.ok_bind]
  by_cases h : a < b
  · rw [if_pos (decide_eq_true h), Int.max_eq_right (Int.le_of_lt h)]
    rfl
  · rw [if_neg (by simpa using h), Int.max_eq_left (Int.not_lt.mp h)]
    rfl

lemma meetDim_whole (a b : Int) : meetDim clash (.whole a) (.whole b) =
    if a = b ∨ a = 1 ∨ b = 1 then .ok (.whole (max a b)) else .error clash := by
  have hone : ∀ i : Int, (Size.whole i).equals 1 = decide (i = 1) := fun i => Size.equals_whole i 1
  unfold meetDim
  rw [Size.equals_whole, hone, hone, larger_whole]
  by_cases heq : a = b
  · rw [if_pos (decide_eq_true heq), if_pos (.inl heq), ← heq, Int.max_self]
  · simp [heq]

/-- A missing axis has size one. -/
lemma meetDim_one (d : Int) : meetDim clash 1 (.whole d) = .ok (.whole (max 1 d)) :=
  (meetDim_whole 1 d).trans (if_pos (.inr (.inl rfl)))

lemma meetDim_comm (a b : Int) :
    meetDim clash (.whole a) (.whole b) = meetDim clash (.whole b) (.whole a) := by
  rw [meetDim_whole, meetDim_whole, Int.max_comm]
  have hiff : (a = b ∨ a = 1 ∨ b = 1) ↔ b = a ∨ b = 1 ∨ a = 1 := by omega
  simp only [hiff]

lemma meetReversed_nil (ds : List Int) : meetReversed clash [] (ds.map .whole) =
    .ok ((ds.map (max 1)).map .whole) := by
  rw [meetReversed]
  induction ds with
  | nil => rfl
  | cons d ds ih =>
    rw [List.map_cons, List.mapM_cons, meetDim_one, Except.ok_bind, ih]
    rfl

lemma meetReversed_comm (clash : Error) (as bs : List Int) :
    meetReversed clash (as.map .whole) (bs.map .whole) =
      meetReversed clash (bs.map .whole) (as.map .whole) := by
  have hnil : ∀ ds : List Int,
      meetReversed clash [] (ds.map .whole) = meetReversed clash (ds.map .whole) [] := by
    intro ds
    cases ds with
    | nil => rfl
    | cons d ds =>
      rw [meetReversed, meetReversed, List.mapM_map, List.mapM_map]
      · congr 1
        funext i
        exact meetDim_comm 1 i
      · simp
  induction as generalizing bs with
  | nil => exact hnil bs
  | cons a as ih =>
    cases bs with
    | nil => exact (hnil (a :: as)).symm
    | cons b bs =>
      rw [List.map_cons, List.map_cons, meetReversed, meetReversed, meetDim_comm, ih]

/-- What starts from sizes of at least one has such sizes in the end. -/
lemma one_le_of_meetReversed (has : ∀ a ∈ as, 1 ≤ a)
    (h : meetReversed clash (as.map .whole) (bs.map .whole) = .ok (cs.map .whole)) :
    ∀ c ∈ cs, 1 ≤ c := by
  induction as generalizing bs cs with
  | nil =>
    rw [List.map_nil, meetReversed_nil, Except.ok.injEq] at h
    obtain rfl := List.map_injective_iff.mpr (fun _ _ => Size.whole.inj) h
    intro c hc
    obtain ⟨b, -, rfl⟩ := List.mem_map.mp hc
    exact Int.le_max_left 1 b
  | cons a as ih =>
    cases bs with
    | nil =>
      rw [meetReversed_comm, List.map_nil, meetReversed_nil, Except.ok.injEq] at h
      obtain rfl := List.map_injective_iff.mpr (fun _ _ => Size.whole.inj) h
      intro c hc
      obtain ⟨b, -, rfl⟩ := List.mem_map.mp hc
      exact Int.le_max_left 1 b
    | cons b bs =>
      rw [List.map_cons, List.map_cons, meetReversed, meetDim_whole] at h
      split at h
      swap
      · cases h
      simp only [Except.ok_bind, Except.bind_eq_ok, Except.pure_eq_ok] at h
      obtain ⟨rest, hrest, h⟩ := h
      cases cs with
      | nil => simp at h
      | cons c cs =>
        rw [List.map_cons, List.cons.injEq] at h
        obtain ⟨hc, rfl⟩ := h
        have hone : 1 ≤ a := has a List.mem_cons_self
        intro c' hc'
        rcases List.mem_cons.mp hc' with rfl | hc'
        · have hmax : max a b = c' := Size.whole.inj hc
          omega
        · exact ih (fun a ha => has a (List.mem_cons_of_mem _ ha)) hrest c' hc'

/-- Integer sizes are matched to integer sizes. -/
lemma meetReversed_whole {sizes : List Size}
    (h : meetReversed clash (as.map .whole) (bs.map .whole) = .ok sizes) :
    ∃ cs : List Int, sizes = cs.map .whole := by
  induction as generalizing bs sizes with
  | nil =>
    rw [List.map_nil, meetReversed_nil, Except.ok.injEq] at h
    exact ⟨_, h.symm⟩
  | cons a as ih =>
    cases bs with
    | nil =>
      rw [meetReversed_comm, List.map_nil, meetReversed_nil, Except.ok.injEq] at h
      exact ⟨_, h.symm⟩
    | cons b bs =>
      rw [List.map_cons, List.map_cons, meetReversed, meetDim_whole] at h
      split at h
      swap
      · cases h
      simp only [Except.ok_bind, Except.bind_eq_ok, Except.pure_eq_ok] at h
      obtain ⟨rest, hrest, rfl⟩ := h
      obtain ⟨cs, rfl⟩ := ih hrest
      exact ⟨max a b :: cs, rfl⟩

lemma broadcastDims_eq_ok : broadcastDims (as.map .whole) (bs.map .whole) = .ok (cs.map .whole) ↔
    meetReversed (.typing (.broadcastMismatch (Size.listText (as.map .whole))
      (Size.listText (bs.map .whole)))) (as.reverse.map .whole) (bs.reverse.map .whole) =
        .ok (cs.reverse.map .whole) := by
  simp only [broadcastDims, Except.map_eq_ok, List.map_reverse]
  constructor
  · rintro ⟨ds, hds, h⟩
    rw [hds, ← h, List.reverse_reverse]
  · intro h
    exact ⟨_, h, List.reverse_reverse _⟩

lemma broadcastDims_whole {sizes : List Size}
    (h : broadcastDims (as.map .whole) (bs.map .whole) = .ok sizes) :
    ∃ cs : List Int, sizes = cs.map .whole := by
  simp only [broadcastDims, ← List.map_reverse, Except.map_eq_ok] at h
  obtain ⟨reversed, hmeet, rfl⟩ := h
  obtain ⟨cs, rfl⟩ := meetReversed_whole hmeet
  exact ⟨cs.reverse, List.map_reverse.symm⟩

end TensorGraph
