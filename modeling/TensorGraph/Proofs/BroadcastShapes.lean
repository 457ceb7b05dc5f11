import Mathlib.Data.List.GetD
import Mathlib.Data.List.Pairwise
import TensorGraph.Proofs.FusedTypes

/-!
# Shapes of operands that are broadcast together

The size on which axes of several operands meet should be the size other than one that occurs among
them, and no order of the operands should matter. Typing takes the operands one after the other,
starting from no sizes at all, and keeps the greater of two sizes. This gives the shape that is
asked for if no axis is empty. An empty axis counts as one of size one until a greater size is met,
so that nodes with empty operands are typed as they should be only if they are refused
(`Node.followsShapes_iff`).
-/

namespace TensorGraph

open Typing ValueType

/-- The size of the axis that is `k` places before the last one. A missing axis has size one. -/
def sizeFromEnd (ds : List Int) (k : Nat) : Int := ds.reverse.getD k 1

/-- Two sizes contradict each other if they are different, and neither is one. -/
def SizesClash (a b : Int) : Prop := a ≠ b ∧ a ≠ 1 ∧ b ≠ 1

/-- On some axis two of the shapes have sizes that contradict each other. -/
def ShapesClash (shapes : List (List Int)) : Prop :=
  ∃ ds ∈ shapes, ∃ es ∈ shapes, ∃ k, SizesClash (sizeFromEnd ds k) (sizeFromEnd es k)

/-- As `ShapesClash`, where the first of the two shapes comes before the other one and has more than
one entry along the axis. -/
def LateClash (shapes : List (List Int)) : Prop :=
  ∃ ds es, [ds, es].Sublist shapes ∧
    ∃ k, 1 < sizeFromEnd ds k ∧ SizesClash (sizeFromEnd ds k) (sizeFromEnd es k)

/-- The shape `cs` has as many axes as the longest of the shapes, and on each axis the size other
than one that occurs there, or one if there is none. -/
structure CommonShape (shapes : List (List Int)) (cs : List Int) : Prop where
  length_le : ∀ ds ∈ shapes, ds.length ≤ cs.length
  longest : ∃ ds ∈ shapes, ds.length = cs.length
  size : ∀ k, ∀ ds ∈ shapes, sizeFromEnd ds k ≠ 1 → sizeFromEnd cs k = sizeFromEnd ds k
  one : ∀ k, (∀ ds ∈ shapes, sizeFromEnd ds k = 1) → sizeFromEnd cs k = 1

/-- The operators that combine their operands entry by entry. -/
def Operator.entrywise : List Operator :=
  [.add, .and, .div, .equal, .greater, .greaterOrEqual, .less, .lessOrEqual, .max, .mean, .min,
    .mul, .or, .pow, .pRelu, .sub, .sum]

namespace Node

/-- The node broadcasts operands of the given shapes together, and its result has elements of type
`e`. -/
inductive Broadcasts (n : Node) (shapes : List (List Int)) (e : ElementType) : Prop where
  | entrywise (hop : n.operator ∈ Operator.entrywise) (hin : n.inputs ≠ [])
    (hsizes : List.Forall₂ (fun v ds => v.type.Sized ds) (presentOperands n) shapes)
    (helement : entrywiseElement n.operator (presentOperands n) = .ok e)
  | select {v : Value} (hop : n.operator = .select)
    (hsizes : List.Forall₂ (fun v ds => v.type.Sized ds) n.inputs shapes)
    (hv : n.input 1 = .ok v) (helement : v.type.element = e)

/-- The node has one output, and three operands if it selects. -/
def HasArity (n : Node) : Prop :=
  n.outputs.length = 1 ∧ (n.operator = .select → n.inputs.length = 3)

/-- The node is refused if and only if the shapes contradict each other, and gets their common shape
otherwise. -/
structure FollowsShapes (n : Node) (shapes : List (List Int)) (e : ElementType) : Prop where
  refuses : (∃ error, n.infer = .error error ∧ error.code? = some "EBROADCAST") ↔ ShapesClash shapes
  gives : ¬ ShapesClash shapes → ∃ cs, CommonShape shapes cs ∧
    n.resultType = .ok (.ofRank e (.ofNat cs.length) (some (cs.map .whole)))

end Node

variable {a b c s : Int} {as bs cs ds es acc : List Int} {shapes shapes' : List (List Int)}
  {clash : Error}

/-- The size `b` is accepted where `a` has been met. -/
def Passes (a b : Int) : Prop := 1 < a → b = 1 ∨ b = a

/-- The shape `es` is accepted where `ds` has been met. -/
def ShapePasses (ds es : List Int) : Prop := ∀ k, Passes (sizeFromEnd ds k) (sizeFromEnd es k)

instance : Decidable (Passes a b) := by
  unfold Passes
  infer_instance

lemma SizesClash.symm (h : SizesClash a b) : SizesClash b a := ⟨h.1.symm, h.2.2, h.2.1⟩

lemma not_passes : ¬ Passes a b ↔ 1 < a ∧ SizesClash a b := by
  unfold Passes SizesClash
  omega

/-- What passes two sizes passes the greater of them, if they pass each other. -/
lemma passes_max (ha : 1 ≤ a) (hab : Passes a b) (hc : c = max a b) :
    Passes c s ↔ Passes a s ∧ Passes b s := by
  unfold Passes at *
  omega

lemma meetDim_of_one_le (ha : 1 ≤ a) : meetDim clash (.whole a) (.whole b) =
    if Passes a b then .ok (.whole (max a b)) else .error clash := by
  rw [meetDim_whole]
  have hiff : (a = b ∨ a = 1 ∨ b = 1) ↔ Passes a b := by
    unfold Passes
    omega
  simp only [hiff]

lemma getD_map_max_one (ds : List Int) (k : Nat) :
    (ds.map (max 1)).getD k 1 = max 1 (ds.getD k 1) := by
  rw [List.getD_eq_getElem?_getD, List.getD_eq_getElem?_getD, List.getElem?_map]
  cases ds[k]? <;> rfl

/-- Sizes of at least one meet others axis by axis, and the greater ones are kept. -/
lemma meetReversed_cases (bs : List Int) (has : ∀ a ∈ as, 1 ≤ a) :
    (∀ k, Passes (as.getD k 1) (bs.getD k 1)) ∧
      (∃ cs : List Int, meetReversed clash (as.map .whole) (bs.map .whole) = .ok (cs.map .whole) ∧
        ∀ k, cs.getD k 1 = max (as.getD k 1) (bs.getD k 1)) ∨
    (∃ k, ¬ Passes (as.getD k 1) (bs.getD k 1)) ∧
      meetReversed clash (as.map .whole) (bs.map .whole) = .error clash := by
  induction as generalizing bs with
  | nil =>
    refine .inl ⟨fun k => ?_, bs.map (max 1), meetReversed_nil bs, getD_map_max_one bs⟩
    intro h
    simp at h
  | cons a as ih =>
    have ha : 1 ≤ a := has a List.mem_cons_self
    cases bs with
    | nil =>
      refine .inl ⟨fun k _ => .inl rfl, (a :: as).map (max 1), ?_, fun k => ?_⟩
      · rw [meetReversed_comm]
        exact meetReversed_nil _
      · rw [getD_map_max_one, Int.max_comm]
        rfl
    | cons b bs =>
      rw [List.map_cons, List.map_cons, meetReversed, meetDim_of_one_le ha]
      by_cases hpass : Passes a b
      · rw [if_pos hpass, Except.ok_bind]
        rcases ih bs fun a h => has a (List.mem_cons_of_mem _ h) with
          ⟨hrest, cs, hcs, hmax⟩ | ⟨⟨k, hk⟩, herror⟩
        · refine .inl ⟨?_, max a b :: cs, ?_, ?_⟩
          · intro k
            cases k with
            | zero => exact hpass
            | succ k => exact hrest k
          · rw [hcs]
            rfl
          · intro k
            cases k with
            | zero => rfl
            | succ k => exact hmax k
        · refine .inr ⟨⟨k + 1, hk⟩, ?_⟩
          rw [herror]
          rfl
      · rw [if_neg hpass]
        exact .inr ⟨⟨0, hpass⟩, rfl⟩

lemma one_le_sizeFromEnd (hds : ∀ d ∈ ds, 1 ≤ d) (k : Nat) : 1 ≤ sizeFromEnd ds k := by
  unfold sizeFromEnd
  rw [List.getD_eq_getElem?_getD]
  cases h : ds.reverse[k]? with
  | none => exact Int.le_refl 1
  | some d => exact hds d (List.mem_reverse.mp (List.mem_of_getElem? h))

lemma exists_sizeFromEnd {d : Int} (hd : d ∈ ds) : ∃ k, sizeFromEnd ds k = d := by
  obtain ⟨k, hk⟩ := List.mem_iff_getElem?.mp (List.mem_reverse.mpr hd)
  exact ⟨k, by rw [sizeFromEnd, List.getD_eq_getElem?_getD, hk, Option.getD_some]⟩

/-- A shape with sizes of at least one meets another. -/
lemma broadcastDims_cases (bs : List Int) (has : ∀ a ∈ as, 1 ≤ a) :
    ShapePasses as bs ∧
      (∃ cs : List Int, broadcastDims (as.map .whole) (bs.map .whole) = .ok (cs.map .whole) ∧
        ∀ k, sizeFromEnd cs k = max (sizeFromEnd as k) (sizeFromEnd bs k)) ∨
    ¬ ShapePasses as bs ∧ ∃ x y, broadcastDims (as.map .whole) (bs.map .whole) =
      .error (.typing (.broadcastMismatch x y)) := by
  have hreverse : ∀ a ∈ as.reverse, 1 ≤ a := fun a ha => has a (List.mem_reverse.mp ha)
  unfold broadcastDims
  dsimp only
  rw [← List.map_reverse, ← List.map_reverse]
  rcases meetReversed_cases bs.reverse hreverse with ⟨hpass, cs, hcs, hmax⟩ | ⟨hpass, herror⟩
  · refine .inl ⟨hpass, cs.reverse, ?_, ?_⟩
    · rw [hcs, List.map_reverse]
      rfl
    · intro k
      rw [sizeFromEnd, List.reverse_reverse]
      exact hmax k
  · refine .inr ⟨not_forall.mpr hpass, ?_⟩
    rw [herror]
    exact ⟨_, _, rfl⟩

/-- Shapes that follow one another are accepted if each passes all the earlier ones. On each axis
the greatest size is kept. -/
lemma foldlM_broadcastDims_cases (shapes : List (List Int)) (hacc : ∀ a ∈ acc, 1 ≤ a) :
    (acc :: shapes).Pairwise ShapePasses ∧
      (∃ cs : List Int, (shapes.map (List.map Size.whole)).foldlM broadcastDims (acc.map .whole) =
        .ok (cs.map .whole) ∧
        ∀ k, sizeFromEnd cs k = (shapes.map (sizeFromEnd · k)).foldl max (sizeFromEnd acc k)) ∨
    ¬ (acc :: shapes).Pairwise ShapePasses ∧ ∃ x y,
      (shapes.map (List.map Size.whole)).foldlM broadcastDims (acc.map .whole) =
        .error (.typing (.broadcastMismatch x y)) := by
  induction shapes generalizing acc with
  | nil => exact .inl ⟨List.pairwise_singleton _ _, acc, rfl, fun _ => rfl⟩
  | cons ds shapes ih =>
    rw [List.map_cons, List.foldlM_cons]
    rcases broadcastDims_cases ds hacc with ⟨hpass, cs, hcs, hmax⟩ | ⟨hpass, x, y, herror⟩
    swap
    · refine .inr ⟨fun h => hpass (List.rel_of_pairwise_cons h List.mem_cons_self), x, y, ?_⟩
      rw [herror]
      rfl
    have hsizes : ∀ k, 1 ≤ sizeFromEnd acc k := one_le_sizeFromEnd hacc
    have hrel : ∀ es, ShapePasses cs es ↔ ShapePasses acc es ∧ ShapePasses ds es := by
      intro es
      unfold ShapePasses
      rw [← forall_and]
      exact forall_congr' fun k => passes_max (hsizes k) (hpass k) (hmax k)
    have hone : ∀ c ∈ cs, 1 ≤ c := by
      intro c hc
      obtain ⟨k, rfl⟩ := exists_sizeFromEnd hc
      rw [hmax]
      exact Int.le_trans (hsizes k) (Int.le_max_left _ _)
    -- the sizes kept so far stand for both shapes in what follows
    have hpairwise : (acc :: ds :: shapes).Pairwise ShapePasses ↔
        (cs :: shapes).Pairwise ShapePasses := by
      simp only [List.pairwise_cons, List.forall_mem_cons, hrel, forall_and]
      tauto
    rw [hpairwise, hcs, Except.ok_bind]
    simpa only [List.map_cons, List.foldl_cons, hmax] using ih hone

lemma shapePasses_nil (es : List Int) : ShapePasses [] es := by
  intro k h
  simp [sizeFromEnd] at h

lemma lateClash_iff : LateClash shapes ↔ ¬ shapes.Pairwise ShapePasses := by
  simp only [List.pairwise_iff_forall_sublist, LateClash, ShapePasses, not_forall, not_passes,
    exists_prop]

/-- Of numbers kept one after the other, the greatest is left. -/
lemma foldl_max_greatest {α : Type} [LE α] [Max α] [Std.IsLinearOrder α] [Std.LawfulOrderMax α]
    (ks : List α) (a : α) : ks.foldl max a ∈ a :: ks ∧ ∀ k ∈ a :: ks, k ≤ ks.foldl max a :=
  List.max?_eq_some_iff.mp List.max?_cons'

lemma shapesClash_congr (h : ∀ ds, ds ∈ shapes' ↔ ds ∈ shapes) :
    ShapesClash shapes' ↔ ShapesClash shapes := by
  simp only [ShapesClash, h]

/-- There is one common shape at most, in whatever order the shapes are given. -/
lemma CommonShape.unique (hcs : CommonShape shapes cs) (hes : CommonShape shapes' es)
    (h : ∀ ds, ds ∈ shapes' ↔ ds ∈ shapes) : cs = es := by
  have hlen : cs.length = es.length := by
    obtain ⟨ds, hds, hlong⟩ := hcs.longest
    obtain ⟨ds', hds', hlong'⟩ := hes.longest
    have hle := hes.length_le ds ((h ds).mpr hds)
    have hle' := hcs.length_le ds' ((h ds').mp hds')
    omega
  have hsize : ∀ k, sizeFromEnd cs k = sizeFromEnd es k := by
    intro k
    by_cases hone : ∀ ds ∈ shapes, sizeFromEnd ds k = 1
    · rw [hcs.one k hone, hes.one k fun ds hds => hone ds ((h ds).mp hds)]
    · simp only [not_forall] at hone
      obtain ⟨ds, hds, hne⟩ := hone
      rw [hcs.size k ds hds hne, hes.size k ds ((h ds).mpr hds) hne]
  refine List.reverse_injective (List.ext_getElem (by simpa using hlen) fun k hk hk' => ?_)
  have hget := hsize k
  rwa [sizeFromEnd, sizeFromEnd, List.getD_eq_getElem _ _ hk, List.getD_eq_getElem _ _ hk'] at hget

/-- Shapes without empty axes contradict each other if they do so in the order given. -/
lemma shapesClash_iff (hone : ∀ ds ∈ shapes, ∀ d ∈ ds, 1 ≤ d) :
    ShapesClash shapes ↔ ¬ shapes.Pairwise ShapePasses := by
  constructor
  · rintro ⟨ds, hds, es, hes, k, hclash⟩ hpass
    -- a clash of sizes of at least one is noticed in either order
    have hfits : shapes.Pairwise fun fs gs =>
        ¬ SizesClash (sizeFromEnd fs k) (sizeFromEnd gs k) := by
      refine hpass.imp_of_mem fun hfs _ hpassing hclash => ?_
      have hfs := one_le_sizeFromEnd (hone _ hfs) k
      exact not_passes.mpr ⟨by have := hclash.2.1; omega, hclash⟩ (hpassing k)
    have : Std.Symm fun fs gs => ¬ SizesClash (sizeFromEnd fs k) (sizeFromEnd gs k) :=
      ⟨fun _ _ h hclash => h hclash.symm⟩
    exact List.Pairwise.forall_of_forall (fun _ _ h => h.1 rfl) hfits hds hes hclash
  · intro h
    obtain ⟨ds, es, hsub, k, -, hclash⟩ := lateClash_iff.mpr h
    exact ⟨ds, hsub.subset (by simp), es, hsub.subset (by simp), k, hclash⟩

lemma ShapesClash.of_late (h : LateClash shapes) : ShapesClash shapes := by
  obtain ⟨ds, es, hsub, k, -, hclash⟩ := h
  exact ⟨ds, hsub.subset (by simp), es, hsub.subset (by simp), k, hclash⟩

/-- The greatest sizes are the common ones if no axis is empty. -/
lemma commonShape_of_greatest (hne : shapes ≠ []) (hone : ∀ ds ∈ shapes, ∀ d ∈ ds, 1 ≤ d)
    (hclash : ¬ ShapesClash shapes) (hlen : cs.length = (shapes.map List.length).foldl max 0)
    (hsizes : ∀ k, sizeFromEnd cs k = (shapes.map (sizeFromEnd · k)).foldl max 1) :
    CommonShape shapes cs := by
  obtain ⟨hlongest, hle⟩ := foldl_max_greatest (shapes.map List.length) 0
  rw [← hlen] at hlongest hle
  have hmax : ∀ k, sizeFromEnd cs k ∈ 1 :: shapes.map (sizeFromEnd · k) ∧
      ∀ d ∈ 1 :: shapes.map (sizeFromEnd · k), d ≤ sizeFromEnd cs k := by
    intro k
    rw [hsizes]
    exact foldl_max_greatest _ _
  have hlength : ∀ ds ∈ shapes, ds.length ≤ cs.length := fun ds hds =>
    hle _ (List.mem_cons_of_mem _ (List.mem_map_of_mem hds))
  refine ⟨hlength, ?_, ?_, ?_⟩
  · rcases List.mem_cons.mp hlongest with hzero | hmem
    · obtain ⟨ds, hds⟩ := List.exists_mem_of_ne_nil _ hne
      have hds' := hlength ds hds
      exact ⟨ds, hds, by omega⟩
    · obtain ⟨ds, hds, h⟩ := List.mem_map.mp hmem
      exact ⟨ds, hds, h⟩
  · intro k ds hds hds1
    have hle : sizeFromEnd ds k ≤ sizeFromEnd cs k :=
      (hmax k).2 _ (List.mem_cons_of_mem _ (List.mem_map_of_mem hds))
    have hge := one_le_sizeFromEnd (hone ds hds) k
    rcases List.mem_cons.mp (hmax k).1 with h | hmem
    · omega
    · obtain ⟨es, hes, h⟩ := List.mem_map.mp hmem
      have hequal : ¬ SizesClash (sizeFromEnd ds k) (sizeFromEnd es k) := fun hclash' =>
        hclash ⟨ds, hds, es, hes, k, hclash'⟩
      unfold SizesClash at hequal
      omega
  · intro k hall
    rcases List.mem_cons.mp (hmax k).1 with h | hmem
    · exact h
    · obtain ⟨es, hes, h⟩ := List.mem_map.mp hmem
      rw [← h, hall es hes]

/-! ## The rules -/

variable {n : Node} {e : ElementType} {vs : List Value}

lemma rule?_entrywise (h : n.operator ∈ Operator.entrywise) :
    rule? n.operator = some entrywise := by
  generalize n.operator = o at h
  cases o <;> first | rfl | simp [Operator.entrywise] at h

/-- The type of operands of the given shapes that are broadcast together. -/
def broadcastType (shapes : List (List Int)) (e : ElementType) : Except Error ValueType :=
  ((shapes.map (List.map Size.whole)).foldlM broadcastDims []).map fun dims =>
    .ofRank e (.ofNat ((shapes.map List.length).foldl max 0)) (some dims)

namespace Node

lemma Broadcasts.shapes_ne_nil (h : n.Broadcasts shapes e) : shapes ≠ [] := by
  rintro rfl
  cases h with
  | entrywise hop hin hsizes helement =>
    have hnil := List.forall₂_nil_right_iff.mp hsizes
    unfold presentOperands at hnil
    split at hnil
    · exact hin hnil
    · next hfilter => exact hfilter hnil
  | select hop hsizes hv helement =>
    have hnil := List.forall₂_nil_right_iff.mp hsizes
    simp [Node.input, hnil] at hv

/-- A node with the operands and the output that its rule asks for gets the broadcast shape. -/
lemma Broadcasts.rule_eq (h : n.Broadcasts shapes e) (harity : n.HasArity) :
    ∃ rule, rule? n.operator = some rule ∧ rule n = broadcastType shapes e := by
  cases h with
  | entrywise hop hin hsizes helement =>
    refine ⟨_, rule?_entrywise hop, ?_⟩
    unfold Typing.entrywise broadcastType
    rw [if_neg (by simp [hin, harity.1])]
    dsimp only
    rw [helement, Except.ok_bind, maxRank_of_sized hsizes, Except.ok_bind,
      broadcastShape_of_sized hsizes]
    cases (shapes.map (List.map Size.whole)).foldlM broadcastDims [] <;> rfl
  | select hop hsizes hv helement =>
    refine ⟨Typing.select, by rw [hop]; rfl, ?_⟩
    unfold Typing.select broadcastType
    rw [if_neg (by simp [harity.1, harity.2 hop]), maxRank_of_sized hsizes, Except.ok_bind,
      broadcastShape_of_sized hsizes, hv, ← helement]
    cases (shapes.map (List.map Size.whole)).foldlM broadcastDims [] <;> rfl

/-- Other nodes are refused for what they lack. -/
lemma Broadcasts.arity_error (h : n.Broadcasts shapes e) (harity : ¬ n.HasArity) :
    ∃ rule, rule? n.operator = some rule ∧
      ∃ error : TypingError, rule n = .error (.typing error) ∧ error.code ≠ "EBROADCAST" := by
  unfold HasArity at harity
  cases h with
  | entrywise hop hin hsizes helement =>
    have hout : n.outputs.length ≠ 1 := by
      refine fun hout => harity ⟨hout, fun hselect => ?_⟩
      rw [hselect] at hop
      simp [Operator.entrywise] at hop
    refine ⟨_, rule?_entrywise hop, .broadcastArity n.operator, ?_, by simp [TypingError.code]⟩
    rw [Typing.entrywise, if_pos (.inr hout)]
    rfl
  | select hop hsizes hv helement =>
    refine ⟨Typing.select, by rw [hop]; rfl, .selectArity, ?_, by simp [TypingError.code]⟩
    rw [Typing.select, if_pos (by tauto)]
    rfl

/-- What becomes of a node that broadcasts operands of the given shapes together. -/
inductive Outcome (n : Node) (shapes : List (List Int)) (e : ElementType) : Prop where
  | arity {error : Error} (harity : ¬ n.HasArity) (hinfer : n.infer = .error error)
    (hcode : error.code? ≠ some "EBROADCAST")
  | refused {error : Error} (harity : n.HasArity) (hpass : ¬ shapes.Pairwise ShapePasses)
    (hinfer : n.infer = .error error) (hcode : error.code? = some "EBROADCAST")
  | typed {m : Node} {cs : List Int} (harity : n.HasArity) (hpass : shapes.Pairwise ShapePasses)
    (hinfer : n.infer = .ok m)
    (htype : n.resultType = .ok (.ofRank e (.ofNat cs.length) (some (cs.map .whole))))
    (hlen : cs.length = (shapes.map List.length).foldl max 0)
    (hsizes : ∀ k, sizeFromEnd cs k = (shapes.map (sizeFromEnd · k)).foldl max 1)

lemma Broadcasts.outcome (h : n.Broadcasts shapes e) : n.Outcome shapes e := by
  by_cases harity : n.HasArity
  swap
  · obtain ⟨rule, hrule, error, herror, hcode⟩ := h.arity_error harity
    exact .arity harity (infer_error hrule herror) fun h => hcode (Option.some.inj h)
  obtain ⟨rule, hrule, htype⟩ := h.rule_eq harity
  have hstart : ([] :: shapes).Pairwise ShapePasses ↔ shapes.Pairwise ShapePasses := by
    simp [List.pairwise_cons, shapePasses_nil]
  have hnone : ∀ a ∈ ([] : List Int), 1 ≤ a := fun a ha => absurd ha List.not_mem_nil
  have hfold := foldlM_broadcastDims_cases shapes hnone
  rw [hstart, List.map_nil] at hfold
  unfold broadcastType at htype
  rcases hfold with ⟨hpass, cs, hcs, hsizes⟩ | ⟨hpass, x, y, herror⟩
  · have hlen : cs.length = (shapes.map List.length).foldl max 0 := by
      have hlength := length_foldlM_broadcastDims hcs
      rw [List.length_map, List.map_map] at hlength
      simpa [Function.comp_def] using hlength
    rw [hcs, ← hlen] at htype
    obtain ⟨m, hm⟩ := infer_ok hrule htype harity.1
    obtain ⟨y, hy⟩ := List.length_eq_one_iff.mp harity.1
    exact .typed harity hpass hm ((resultType_eq hrule hy).trans htype) hlen hsizes
  · rw [herror] at htype
    exact .refused harity hpass (infer_error hrule htype) rfl

/-- Shapes without empty axes are broadcast as they should be. -/
lemma FollowsShapes.of_pos (h : n.Broadcasts shapes e) (harity : n.HasArity)
    (hone : ∀ ds ∈ shapes, ∀ d ∈ ds, 1 ≤ d) : n.FollowsShapes shapes e := by
  cases h.outcome with
  | arity hno => exact absurd harity hno
  | refused _ hpass hinfer hcode =>
    have hclash := (shapesClash_iff hone).mpr hpass
    exact ⟨iff_of_true ⟨_, hinfer, hcode⟩ hclash, fun hno => absurd hclash hno⟩
  | typed _ hpass hinfer htype hlen hsizes =>
    have hclash : ¬ ShapesClash shapes := fun h => (shapesClash_iff hone).mp h hpass
    refine ⟨iff_of_false ?_ hclash, fun _ => ⟨_, ?_, htype⟩⟩
    · rintro ⟨error, herror, -⟩
      cases hinfer.symm.trans herror
    · exact commonShape_of_greatest h.shapes_ne_nil hone hclash hlen hsizes

/-- Of the nodes with empty operands, those that are refused are typed as they should be. -/
lemma Broadcasts.followsShapes_iff_of_nonneg (h : n.Broadcasts shapes e)
    (hnonneg : ∀ ds ∈ shapes, ∀ d ∈ ds, 0 ≤ d) :
    n.FollowsShapes shapes e ↔ n.HasArity ∧ ((∀ ds ∈ shapes, 0 ∉ ds) ∨ LateClash shapes) := by
  constructor
  · intro hfollows
    cases h.outcome with
    | arity _ hinfer hcode =>
      exfalso
      by_cases hclash : ShapesClash shapes
      · obtain ⟨error, herror, hcode'⟩ := hfollows.refuses.mpr hclash
        obtain rfl := Except.error.inj (hinfer.symm.trans herror)
        exact hcode hcode'
      · obtain ⟨cs, -, hcs⟩ := hfollows.gives hclash
        cases (resultType_error hinfer).symm.trans hcs
    | refused harity hpass => exact ⟨harity, .inr (lateClash_iff.mpr hpass)⟩
    | @typed m cs harity hpass hinfer htype hlen hsizes =>
      refine ⟨harity, .inl fun ds hds hzero => ?_⟩
      have hclash : ¬ ShapesClash shapes := by
        intro hclash
        obtain ⟨error, herror, -⟩ := hfollows.refuses.mpr hclash
        cases hinfer.symm.trans herror
      obtain ⟨es, hes, htype'⟩ := hfollows.gives hclash
      have hdims := congrArg dims? (Except.ok.inj (htype.symm.trans htype'))
      rw [dims?_ofRank_of_length (List.length_map _), dims?_ofRank_of_length (List.length_map _),
        Option.some.injEq] at hdims
      obtain rfl := List.map_injective_iff.mpr (fun _ _ => Size.whole.inj) hdims
      -- no size that is kept is less than one
      obtain ⟨k, hk⟩ := exists_sizeFromEnd hzero
      have hkept := hes.size k ds hds (by omega)
      have hgreatest := (foldl_max_greatest (shapes.map (sizeFromEnd · k)) 1).2 1 List.mem_cons_self
      rw [← hsizes] at hgreatest
      omega
  · rintro ⟨harity, hpos | hlate⟩
    · refine FollowsShapes.of_pos h harity fun ds hds d hd => ?_
      have hne : d ≠ 0 := fun hzero => hpos ds hds (hzero ▸ hd)
      have hle := hnonneg ds hds d hd
      omega
    · have hclash := ShapesClash.of_late hlate
      cases h.outcome with
      | arity hno => exact absurd harity hno
      | refused _ _ hinfer hcode =>
        exact ⟨iff_of_true ⟨_, hinfer, hcode⟩ hclash, fun hno => absurd hclash hno⟩
      | typed _ hpass => exact absurd hpass (lateClash_iff.mp hlate)

lemma presentOperands_perm {inputs : List Value} (h : inputs.Perm n.inputs) :
    (presentOperands { n with inputs }).Perm (presentOperands n) := by
  have hfilter := h.filter fun v => decide (v.name ≠ "") || v.literal.isSome
  unfold presentOperands
  dsimp only
  split
  · next hnil =>
    rw [hnil] at hfilter
    rw [hfilter.nil_eq.symm]
    exact h
  · next hne =>
    split
    · next hnil =>
      rw [hnil] at hfilter
      exact absurd hfilter.eq_nil hne
    · exact hfilter

lemma mem_iff_of_sized (h : List.Forall₂ (fun v ds => v.type.Sized ds) vs shapes) :
    ds ∈ shapes ↔ ∃ v ∈ vs, v.type.Sized ds := by
  induction h with
  | nil => simp
  | cons hv _ ih =>
    simp only [List.mem_cons, ih, exists_eq_or_imp]
    exact or_congr_left ⟨fun h => h ▸ hv, fun h => h.eq hv⟩

lemma Broadcasts.resultType_of_not_hasArity (h : n.Broadcasts shapes e) (harity : ¬ n.HasArity) :
    n.resultType.toOption = none := by
  obtain ⟨rule, hrule, error, herror, -⟩ := h.arity_error harity
  rw [resultType_error (infer_error hrule herror)]
  rfl

/-- With the operands in another order, the shapes are the same. -/
lemma Broadcasts.mem_shapes {inputs : List Value} {e' : ElementType} (h : n.Broadcasts shapes e)
    (hperm : inputs.Perm n.inputs) (h' : { n with inputs }.Broadcasts shapes' e') (ds : List Int) :
    ds ∈ shapes' ↔ ds ∈ shapes := by
  cases h with
  | entrywise hop _ hsizes _ =>
    cases h' with
    | entrywise _ _ hsizes' _ =>
      have hpresent := presentOperands_perm (n := n) hperm
      simp only [mem_iff_of_sized hsizes, mem_iff_of_sized hsizes', hpresent.mem_iff]
    | select hop' =>
      rw [show n.operator = .select from hop'] at hop
      simp [Operator.entrywise] at hop
  | select hop hsizes _ _ =>
    cases h' with
    | entrywise hop' =>
      rw [hop] at hop'
      simp [Operator.entrywise] at hop'
    | select _ hsizes' _ _ =>
      simp only [mem_iff_of_sized hsizes, mem_iff_of_sized hsizes', hperm.mem_iff]

lemma FollowsShapes.dims_cases (h : n.FollowsShapes shapes e) :
    ShapesClash shapes ∧ n.resultType.toOption.map dims? = none ∨
      ¬ ShapesClash shapes ∧ ∃ cs, CommonShape shapes cs ∧
        n.resultType.toOption.map dims? = some (some (cs.map .whole)) := by
  by_cases hclash : ShapesClash shapes
  · obtain ⟨error, herror, -⟩ := h.refuses.mpr hclash
    rw [resultType_error herror]
    exact .inl ⟨hclash, rfl⟩
  · obtain ⟨cs, hcs, htype⟩ := h.gives hclash
    rw [htype]
    exact .inr ⟨hclash, cs, hcs, congrArg some (dims?_ofRank_of_length (List.length_map _))⟩

/-- The order of operands that are not empty matters neither to whether the node is refused nor to
the sizes that it gets. -/
lemma Broadcasts.dims_perm {inputs : List Value} {e' : ElementType} (h : n.Broadcasts shapes e)
    (hone : ∀ ds ∈ shapes, ∀ d ∈ ds, 1 ≤ d) (hperm : inputs.Perm n.inputs)
    (h' : { n with inputs }.Broadcasts shapes' e') :
    { n with inputs }.resultType.toOption.map dims? = n.resultType.toOption.map dims? := by
  have hmem := h.mem_shapes hperm h'
  have harity : { n with inputs }.HasArity ↔ n.HasArity := by
    unfold HasArity
    rw [hperm.length_eq]
  by_cases hn : n.HasArity
  · have hone' : ∀ ds ∈ shapes', ∀ d ∈ ds, 1 ≤ d := fun ds hds => hone ds ((hmem ds).mp hds)
    have hclash := shapesClash_congr hmem
    rcases (FollowsShapes.of_pos h hn hone).dims_cases with
      ⟨hrefused, hdims⟩ | ⟨hfits, cs, hcs, hdims⟩
    · rcases (FollowsShapes.of_pos h' (harity.mpr hn) hone').dims_cases with
        ⟨-, hdims'⟩ | ⟨hfits', -⟩
      · rw [hdims, hdims']
      · exact absurd (hclash.mpr hrefused) hfits'
    · rcases (FollowsShapes.of_pos h' (harity.mpr hn) hone').dims_cases with
        ⟨hrefused', -⟩ | ⟨-, es, hes, hdims'⟩
      · exact absurd (hclash.mp hrefused') hfits
      · rw [hdims, hdims', hcs.unique hes hmem]
  · rw [h.resultType_of_not_hasArity hn, h'.resultType_of_not_hasArity (mt harity.mp hn)]

/-- Operands without empty axes are broadcast as they should be, and their order does not matter.
If an operand has an empty axis, the node is typed as it should be only where it is refused: where
two sizes contradict each other of which the first is greater than one. -/
theorem followsShapes_iff (h : n.Broadcasts shapes e) (hnonneg : ∀ ds ∈ shapes, ∀ d ∈ ds, 0 ≤ d) :
    (n.FollowsShapes shapes e ↔
      n.HasArity ∧ ((∀ ds ∈ shapes, 0 ∉ ds) ∨ LateClash shapes)) ∧
    ((∀ ds ∈ shapes, 0 ∉ ds) → ∀ inputs : List Value, inputs.Perm n.inputs → ∀ shapes' e',
      { n with inputs }.Broadcasts shapes' e' →
        { n with inputs }.resultType.toOption.map dims? = n.resultType.toOption.map dims?) := by
  refine ⟨h.followsShapes_iff_of_nonneg hnonneg, ?_⟩
  intro hpos inputs hperm shapes' e' h'
  refine h.dims_perm (fun ds hds d hd => ?_) hperm h'
  have hne : d ≠ 0 := fun hzero => hpos ds hds (hzero ▸ hd)
  have hle := hnonneg ds hds d hd
  omega

end Node

/-- The sum of two operands of the given shapes. -/
def sumOf (ds es : List Int) : Node where
  operator := .add
  name := ""
  inputs := [{ name := "x", type := .tensor .float32 (.ofNat ds.length) (some (ds.map .whole)) },
    { name := "y", type := .tensor .float32 (.ofNat es.length) (some (es.map .whole)) }]
  outputs := [{ name := "z" }]

lemma broadcasts_sumOf (ds es : List Int) : (sumOf ds es).Broadcasts [ds, es] .float32 := by
  refine .entrywise (by simp [sumOf, Operator.entrywise]) (by simp [sumOf]) ?_ rfl
  exact .cons (sized_tensor ds) (.cons (sized_tensor es) .nil)

theorem Node.followsShapes_rows : (sumOf [2, 1] [3]).FollowsShapes [[2, 1], [3]] .float32 :=
  (Node.followsShapes_iff (broadcasts_sumOf _ _) (by decide)).1.mpr
    ⟨⟨rfl, fun h => by cases h⟩, .inl (by decide)⟩

/-- The sum of two vectors without entries is typed as a vector with one entry. -/
theorem not_followsShapes_empty : ¬ (sumOf [0] [0]).FollowsShapes [[0], [0]] .float32 := by
  intro h
  have hclash : ¬ ShapesClash [[0], [0]] := by
    rintro ⟨ds, hds, es, hes, k, hne, -⟩
    simp only [List.mem_cons, List.not_mem_nil, or_false, or_self] at hds hes
    exact hne (by rw [hds, hes])
  obtain ⟨cs, hcs, htype⟩ := h.gives hclash
  have hone : (sumOf [0] [0]).resultType = .ok (.tensor .float32 1 (some [1])) := rfl
  have hdims := congrArg dims? (Except.ok.inj (hone.symm.trans htype))
  rw [dims?_ofRank_of_length (List.length_map _)] at hdims
  obtain rfl : [1] = cs :=
    List.map_injective_iff.mpr (fun _ _ => Size.whole.inj) (Option.some.inj hdims)
  have hzero : sizeFromEnd [1] 0 = sizeFromEnd [0] 0 := hcs.size 0 [0] (by simp) (by decide)
  exact absurd hzero (by decide)

/-- Whether an empty operand is refused depends on which operand comes first. -/
example : (sumOf [0] [3]).resultType = .ok (.tensor .float32 1 (some [3])) ∧
    (sumOf [3] [0]).resultType = .error (.typing (.broadcastMismatch "[3]" "[0]")) := ⟨rfl, rfl⟩

end TensorGraph
