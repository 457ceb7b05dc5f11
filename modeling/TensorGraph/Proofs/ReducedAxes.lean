import TensorGraph.Proofs.Safety.Rules
import TensorGraph.Proofs.SqueezedAxes

/-!
# Axes that a reduction keeps

A reduction keeps the axes along which it reduces, with size one, or drops them. Dropping them
afterwards gives the same type as not keeping them, also where axes are repeated, counted from the
end, or left out to mean all of them (`Node.KeepsWhatDrops.squeeze_resultType`).
-/

namespace TensorGraph

open Typing ValueType

namespace Node

/-- Both nodes reduce the same operand along the same axes. The first one keeps the axes, the second
drops them. -/
structure KeepsWhatDrops (kept dropped : Node) : Prop where
  operator : kept.operator = dropped.operator
  inputs : kept.inputs = dropped.inputs
  outputs : kept.outputs ≠ [] ∧ dropped.outputs ≠ []
  attributes : ∀ key, key ≠ "keepdims" → kept.attribute? key = dropped.attribute? key
  keeps : kept.flag "keepdims" true = .ok true
  drops : dropped.flag "keepdims" true = .ok false

/-- The node reduces along all axes, since it names none. -/
structure NamesNoAxes (n : Node) : Prop where
  operator : n.operator ≠ .argMax
  axes : n.integers? 1 "axes" = .ok none ∨ n.integers? 1 "axes" = .ok (some [])

/-- The axes of `r` along which the node reduces. -/
inductive ReducesAlong (n : Node) (r : Nat) : List Int → Prop where
  /-- The greatest entry is sought along one axis, the first if none is given. -/
  | greatest {a : Int} (hop : n.operator = .argMax)
    (haxis : n.quantity "axis" 0 = .ok (.number (.whole a))) : ReducesAlong n r [a]
  | named {axes : List Int} (hop : n.operator ≠ .argMax)
    (haxes : n.integers? 1 "axes" = .ok (some axes)) (hne : axes ≠ []) : ReducesAlong n r axes
  | all (h : n.NamesNoAxes) : ReducesAlong n r ((List.range r).map Int.ofNat)

end Node

variable {n m kept dropped : Node} {t : ValueType} {x : Value} {axes : List Int}
  {places sizes : List Size} {r : Nat}

/-- Sizes put at places that are dropped make no difference. -/
lemma dropPlaces_flattenPlaces (places sizes : List Size) :
    dropPlaces places (flattenPlaces places sizes) = dropPlaces places sizes := by
  -- the tail of the sizes stands one place further
  have hfrom : ∀ i, (((((sizes.zipIdx i).map fun e =>
      if isAmong places e.2 then (1 : Size) else e.1).zipIdx i).filter
        fun e => ! isAmong places e.2).map Prod.fst) =
      ((sizes.zipIdx i).filter fun e => ! isAmong places e.2).map Prod.fst := by
    induction sizes with
    | nil => exact fun _ => rfl
    | cons d sizes ih =>
      intro i
      cases hi : isAmong places i <;> simp [hi, ih (i + 1)]
  exact hfrom 0

lemma distinctPlaces_range (r : Nat) : distinctPlaces (.ofNat r) ((List.range r).map Int.ofNat) =
    .ok ((List.range r).map Size.ofNat) := by
  have hplaces : axisPlaces r ((List.range r).map Int.ofNat) = (List.range r).map Int.ofNat := by
    rw [axisPlaces, List.map_map]
    refine List.map_congr_left fun i _ => ?_
    have hi : ¬ Int.ofNat i < 0 := Int.not_lt.mpr (Int.natCast_nonneg i)
    rw [Function.comp_apply, if_neg hi]
  have hnodup : (axisPlaces r ((List.range r).map Int.ofNat)).Nodup := by
    rw [hplaces]
    exact List.nodup_range.map fun _ _ => Int.ofNat.inj
  rw [distinctPlaces_of_nodup hnodup, hplaces, List.map_map]
  rfl

/-- All axes are listed, if their number fits a signed word. -/
lemma axesUpTo_cases (r : Nat) : axesUpTo (.ofNat r) = .ok (List.range r) ∨
    2 ^ 63 ≤ r ∧ axesUpTo (.ofNat r) = .error (.fault .overflow) := by
  rcases Nat.lt_or_ge r (2 ^ 63) with hfew | hmany
  · exact .inl (axesUpTo_eq hfew)
  · have hcount : (Size.ofNat r).count = .error (.fault .overflow) := by
      simp only [Size.count, Size.index, Size.ofNat, Except.ok_bind]
      rw [if_pos (by exact_mod_cast hmany)]
      rfl
    exact .inr ⟨hmany, by rw [axesUpTo, hcount]; rfl⟩

namespace Node

/-- The places of a reduction are those of its axes, unless all are meant and their number fits no
word. -/
lemma ReducesAlong.reducedPlaces (h : n.ReducesAlong r axes) :
    reducedPlaces n (.ofNat r) = distinctPlaces (.ofNat r) axes ∨
      n.NamesNoAxes ∧ 2 ^ 63 ≤ r ∧ reducedPlaces n (.ofNat r) = .error (.fault .overflow) := by
  cases h with
  | @greatest a hop haxis =>
    have hgreatest : greatestAxis n (.ofNat r) = normalizeAxis (.ofNat r) a := by
      rw [greatestAxis, haxis, Except.ok_bind, Quantity.isNegative_whole, Except.ok_bind,
        normalizeAxis]
      by_cases ha : a < 0
      · rw [if_pos (decide_eq_true ha), if_pos ha]
        rfl
      · rw [if_neg (by simpa using ha), if_neg ha]
        rfl
    have hone : (axisPlaces r [a]).Nodup := List.nodup_singleton _
    left
    rw [Typing.reducedPlaces, if_pos hop, hgreatest, normalizeAxis_ofNat,
      distinctPlaces_of_nodup hone]
    rfl
  | named hop haxes hne =>
    obtain ⟨a, as, rfl⟩ := List.exists_cons_of_ne_nil hne
    left
    rw [Typing.reducedPlaces, if_neg hop, haxes, Except.ok_bind]
  | all hnone =>
    have hall : Typing.reducedPlaces n (.ofNat r) =
        (axesUpTo (.ofNat r)).map (·.map Size.ofNat) := by
      rw [Typing.reducedPlaces, if_neg hnone.operator]
      rcases hnone.axes with haxes | haxes
      · rw [haxes]
        cases axesUpTo (.ofNat r) <;> rfl
      · rw [haxes]
        cases axesUpTo (.ofNat r) <;> rfl
    rw [hall, distinctPlaces_range]
    rcases axesUpTo_cases r with hlist | ⟨hmany, herror⟩
    · exact .inl (by rw [hlist]; rfl)
    · exact .inr ⟨hnone, hmany, by rw [herror]; rfl⟩

lemma KeepsWhatDrops.reducedPlaces (h : kept.KeepsWhatDrops dropped) (rank : Size) :
    reducedPlaces dropped rank = reducedPlaces kept rank := by
  simp only [Typing.reducedPlaces, greatestAxis, quantity, integers?, h.operator, h.inputs,
    h.attributes "axis" (by decide), h.attributes "axes" (by decide)]

end Node

/-! ## Types -/

/-- Axes that are kept are axes of the result. -/
lemma ValueType.IsArray.dims?_flattened {e : ElementType} (hr : t.IsArray r) (places : List Size) :
    (ofRank e (.ofNat r) (t.dims?.map (flattenPlaces places))).dims? =
      t.dims?.map (flattenPlaces places) := by
  cases hdims : t.dims? with
  | none => rw [Option.map_none, ofRank_of_pos (hr.pos hdims)]; rfl
  | some sizes =>
    rw [Option.map_some, dims?_ofRank_of_length]
    rw [length_flattenPlaces, hr.hasAxes.length sizes hdims]

namespace Node

lemma reduce_error {error : Error} (hx : n.input 0 = .ok x)
    (hplaces : Typing.reducedPlaces n x.type.rank = .error error) : reduce n = .error error := by
  simp only [reduce, hx, Except.ok_bind, hplaces]
  rfl

lemma reduce_keeping (hx : n.input 0 = .ok x)
    (hplaces : Typing.reducedPlaces n x.type.rank = .ok places)
    (hkeep : n.flag "keepdims" true = .ok true) : reduce n =
      .ok (.ofRank (n.reducedElement x) x.type.rank (x.type.dims?.map (flattenPlaces places))) := by
  simp only [reduce, hx, hplaces, hkeep, Except.ok_bind]
  rfl

/-- Of the axes that are kept, squeezing drops those along which the node reduces. What comes out is
the type of the node that drops them at once. Both have a type, unless all axes are meant and their
number fits no word. -/
theorem KeepsWhatDrops.squeeze_resultType {squeezing : ValueType → Node}
    (h : kept.KeepsWhatDrops dropped) (hop : kept.operator ∈ Operator.reductions)
    (hx : kept.input 0 = .ok x) (hr : x.type.IsArray r) (haxes : kept.ReducesAlong r axes)
    (hsqueeze : ∀ u, (squeezing u).operator = .squeeze ∧ (squeezing u).ActsAlong u axes) :
    (kept.resultType >>= fun u => (squeezing u).resultType) = dropped.resultType ∧
      ((kept.NamesNoAxes → r < 2 ^ 63) → ∃ t, dropped.resultType = .ok t) := by
  obtain ⟨y, ys, hy⟩ := List.exists_cons_of_ne_nil h.outputs.1
  obtain ⟨y', ys', hy'⟩ := List.exists_cons_of_ne_nil h.outputs.2
  have hrank : x.type.rank = .ofNat r := hr.hasAxes.rank
  have hkept : kept.resultType = reduce kept := resultType_eq (rule?_reductions hop) hy
  have hdropped : dropped.resultType = reduce dropped :=
    resultType_eq (rule?_reductions (h.operator ▸ hop)) hy'
  have hx' : dropped.input 0 = .ok x := by rw [input, ← h.inputs, ← input, hx]
  have hsame := h.reducedPlaces x.type.rank
  rw [hkept, hdropped]
  rcases haxes.reducedPlaces with hplaces | ⟨hnone, hmany, herror⟩
  · obtain ⟨places, hfound⟩ := exists_distinctPlaces r axes
    rw [hfound, ← hrank] at hplaces
    have helement : dropped.reducedElement x = kept.reducedElement x := by
      rw [reducedElement, reducedElement, h.operator]
    rw [reduce_keeping hx hplaces h.keeps, Except.ok_bind,
      reduce_dropping hx' hrank (hsame.trans hplaces) h.drops]
    refine ⟨?_, fun _ => ⟨_, rfl⟩⟩
    have hu : (ofRank (kept.reducedElement x) x.type.rank
        (x.type.dims?.map (flattenPlaces places))).rank = .ofNat r := by
      rw [hrank, Size.ofNat, rank_ofRank]
    obtain ⟨hm, hacts⟩ := hsqueeze (ofRank (kept.reducedElement x) x.type.rank
      (x.type.dims?.map (flattenPlaces places)))
    rw [hacts.resultType_squeeze hm, squeezeAt_of_places hu hfound, element_ofRank, hrank,
      hr.dims?_flattened, helement, Option.map_map]
    have hdrop : (dropPlaces places ∘ flattenPlaces places) = dropPlaces places :=
      funext (dropPlaces_flattenPlaces places)
    rw [hdrop]
  · rw [← hrank] at herror
    rw [reduce_error hx herror, reduce_error hx' (hsame.trans herror)]
    exact ⟨rfl, fun hfew => absurd (hfew hnone) (Nat.not_lt.mpr hmany)⟩

end Node

/-- A sum along the first and the last of three axes, which are kept or dropped. -/
def sumAlongEnds (keep : Int) : Node :=
  { alongEnds .reduceSum (.tensor .float32 3 (some [2, 3, 4])) with
    attributes := Table.insert ∅ "keepdims" (.int keep) }

theorem Node.squeeze_sumAlongEnds :
    ((sumAlongEnds 1).resultType >>= fun u => (alongEnds .squeeze u).resultType) =
        (sumAlongEnds 0).resultType ∧
      ∃ t, (sumAlongEnds 0).resultType = .ok t := by
  have h : (sumAlongEnds 1).KeepsWhatDrops (sumAlongEnds 0) := by
    refine ⟨rfl, rfl, ⟨List.cons_ne_nil _ _, List.cons_ne_nil _ _⟩, fun key hkey => ?_, rfl, rfl⟩
    simp only [Node.attribute?, sumAlongEnds, Table.get?_insert, if_neg hkey]
  have ht : (ValueType.tensor .float32 (.ofNat 3) (some [2, 3, 4])).IsArray 3 :=
    .tensor (by decide) fun _ hds => Option.some.inj hds ▸ rfl
  have haxes : (sumAlongEnds 1).ReducesAlong 3 [-1, 0] :=
    .named (by decide) (congrArg (Except.map some) (Literal.toInts_vector (.signed 64) [-1, 0]))
      (List.cons_ne_nil _ _)
  obtain ⟨hsame, htyped⟩ := h.squeeze_resultType (by decide) rfl ht haxes
    fun u => ⟨rfl, actsAlong_alongEnds .squeeze u⟩
  exact ⟨hsame, htyped fun _ => by decide⟩

end TensorGraph
