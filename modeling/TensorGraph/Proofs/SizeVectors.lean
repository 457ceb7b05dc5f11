import TensorGraph.Proofs.TypingView

/-!
# Vectors of sizes

The sizes of `r` axes are a vector of `r` wide integers. Typing may be told so of an operand in
either way, and gives outputs that read alike (`Node.infer_vectorised`), unless the operand is
joined or selected from as a vector of sizes (`Node.SizesMatter`).
-/

namespace TensorGraph

open Typing

/-- The second type is the first one, but that a vector of sizes may have become a vector of wide
integers of its length. -/
inductive ValueType.Vectorised : ValueType → ValueType → Prop where
  | same (t : ValueType) : Vectorised t t
  | sizes (rank : Size) : Vectorised (.shape rank) (.tensor .int64 1 (some [rank]))

/-- The axis that a node names, if it is an integer. -/
def Node.axis? (n : Node) : Option Int :=
  match n.attribute? "axis" with
  | none => some 0
  | some (.int a) => some a
  | some _ => none

/-- The node names the only axis of a vector. -/
def Node.OnlyAxis (n : Node) : Prop := n.axis? = some 0 ∨ n.axis? = some (-1)

/-- A vector of sizes has become one of integers where typing does not take the two for one another:
in a join of nothing but sizes along an axis that a vector does not have, or under a selection by
indices that are no single place and no vector of known length, or along another axis. -/
inductive Node.SizesMatter (n n' : Node) : Prop where
  | join (hop : n.operator = .concat) (hsizes : ∀ v ∈ n.inputs, ∃ rank, v.type = .shape rank)
    (hreplaced : n'.inputs ≠ n.inputs) (haxis : ¬ n.OnlyAxis)
  | selection {v w i : Value} (hop : n.operator = .gather) (hv : n.input 0 = .ok v)
    (hw : n'.input 0 = .ok w) (hi : n.input 1 = .ok i) (hreplaced : w.type ≠ v.type)
    (hplace : ¬ (i.type.rank = 0 ∧ n.axis?.isSome))
    (hplaces : ¬ (i.type.rank = 1 ∧ (∃ k : Int, i.type.dims? = some [.whole k]) ∧ n.OnlyAxis))

namespace Quantity

variable (a b : Int)

lemma isNegative_whole : (number (.whole a)).isNegative = .ok (decide (a < 0)) := by
  change Except.ok (decide (some (compare a 0) = some .lt)) = _
  simp only [Option.some.injEq, Int.compare_eq_lt]

lemma reaches_whole : (number (.whole a)).reaches (.whole b) = .ok (decide (b ≤ a)) := by
  change Except.ok (decide (some (compare a b) = some .gt ∨ some (compare a b) = some .eq)) = _
  simp only [Option.some.injEq, Int.compare_eq_gt, Int.compare_eq_eq]
  congr 2
  exact propext (by omega)

/-- A negative place counts from the end. -/
lemma normalize_whole : (number (.whole a)).normalize (.whole b) =
    .ok (number (.whole (if a < 0 then a + b else a))) := by
  unfold normalize
  rw [isNegative_whole]
  by_cases h : a < 0
  · simp only [h, decide_true, if_true]
    rfl
  · simp only [h, decide_false, if_false]
    rfl

end Quantity

variable {n n' : Node} {t t' : ValueType} {v w i : Value} {vs ws : List Value} {a : Int}
  {counts : List Size}

lemma quantity_axis (h : n.axis? = some a) : n.quantity "axis" 0 = .ok (.number (.whole a)) := by
  unfold Node.axis? at h
  unfold Node.quantity
  split at h
  · next hnone =>
    rw [hnone]
    obtain rfl := Option.some.inj h
    rfl
  · next hint =>
    rw [hint]
    obtain rfl := Option.some.inj h
    rfl
  · simp at h

/-- A vector has one axis. -/
lemma joinAxis_one (h : n.axis? = some a) : joinAxis n 1 =
    if a = 0 ∨ a = -1 then .ok (.number 0) else .error (.typing .concatAxis) := by
  have hnormal : (Quantity.number (.whole a)).normalize 1 = _ := Quantity.normalize_whole a 1
  unfold joinAxis
  rw [quantity_axis h, Except.ok_bind, hnormal, Except.ok_bind]
  generalize hp : (if a < 0 then a + 1 else a) = p
  have hreaches : (Quantity.number (.whole p)).reaches 1 = _ := Quantity.reaches_whole p 1
  rw [Quantity.isNegative_whole, hreaches, Except.ok_bind, Except.ok_bind]
  by_cases ha : a = 0 ∨ a = -1
  · obtain rfl : p = 0 := by
      split at hp <;> omega
    rw [if_pos ha]
    rfl
  · have hout : (decide (p < 0) || decide (1 ≤ p)) = true := by
      rw [Bool.or_eq_true, decide_eq_true_iff, decide_eq_true_iff]
      split at hp <;> omega
    rw [if_neg ha, if_pos hout]
    rfl

lemma Node.OnlyAxis.joinAxis (h : n.OnlyAxis) : joinAxis n 1 = .ok (.number 0) := by
  rcases h with h | h <;> rw [joinAxis_one h] <;> rfl

lemma bmod_word {k : Int} (h : Size.isSigned k = true) : Int.bmod k (2 ^ 64) = k := by
  have hrange : -2 ^ 63 ≤ k ∧ k < 2 ^ 63 := by simpa [Size.isSigned] using h
  apply Int.bmod_eq_of_le_mul_two <;> omega

/-- A size on its own is multiplied in words in which it fits, or exactly. -/
lemma product_singleton (k : Int) : Size.product [.whole k] = .ok k := by
  by_cases hword : Size.isWord k = true
  · by_cases hsigned : Size.isSigned k = true
    · have hproduct : Size.product [.whole k] = .ok (wrappedProduct [k]) := by
        simp [Size.product, hword, hsigned, pure, Except.pure]
      rw [hproduct, wrappedProduct, List.foldl_cons, List.foldl_nil, Int.one_mul, bmod_word hsigned]
    · have hproduct : Size.product [.whole k] = .ok (1 * k % 2 ^ 64) := by
        simp [Size.product, hword, hsigned, pure, Except.pure]
      have hrange : -2 ^ 63 ≤ k ∧ k < 2 ^ 64 := by simpa [Size.isWord] using hword
      have hlarge : ¬ (-2 ^ 63 ≤ k ∧ k < 2 ^ 63) := by simpa [Size.isSigned] using hsigned
      rw [hproduct, Int.one_mul, Int.emod_eq_of_lt (by omega) (by omega)]
  · have hproduct : Size.product [.whole k] = (do (← Size.mul 1 (.whole k)).toInt) := by
      simp [Size.product, hword]
    have hmul : Size.mul 1 (.whole k) = .ok (.whole (1 * k)) := rfl
    rw [hproduct, hmul, Int.one_mul]
    rfl

lemma ValueType.Vectorised.reading (h : t.Vectorised t') : t.SameReading t' := by
  cases h with
  | same => exact .refl t
  | sizes => exact ⟨rfl, rfl, rfl⟩

lemma ValueType.Vectorised.eq_shape {rank : Size} (h : t.Vectorised (.shape rank)) :
    t = .shape rank := by
  cases h
  rfl

lemma ValueType.Vectorised.eq_or (h : t.Vectorised t') :
    t' = t ∨ ∃ rank, t = .shape rank ∧ t' = .tensor .int64 1 (some [rank]) := by
  cases h with
  | same => exact .inl rfl
  | sizes rank => exact .inr ⟨rank, rfl, rfl⟩

lemma sizeCounts?_eq_some :
    sizeCounts? vs = some counts ↔ vs.map Value.type = counts.map ValueType.shape := by
  unfold sizeCounts?
  induction vs generalizing counts with
  | nil => cases counts <;> simp
  | cons v vs ih =>
    rw [List.mapM_cons]
    cases ht : v.type with
    | shape rank =>
      cases counts with
      | nil => simp [ht, Option.bind_eq_some_iff]
      | cons c cs =>
        rw [List.map_cons, List.map_cons, ht, List.cons_eq_cons, ← ih]
        simp [Option.bind_eq_some_iff, and_comm]
    | tensor t dim dims => cases counts <;> simp [ht]
    | scalar t => cases counts <;> simp [ht]

/-- Where all operands are still vectors of sizes, none has been replaced. -/
lemma eq_of_sizeCounts? (h : List.Forall₂ (Value.Over ValueType.Vectorised) vs ws)
    (hcounts : sizeCounts? ws = some counts) : ws = vs := by
  have htypes := sizeCounts?_eq_some.mp hcounts
  induction h generalizing counts with
  | nil => rfl
  | @cons v w vs ws hv _ ih =>
    cases counts with
    | nil => simp at htypes
    | cons c cs =>
      obtain ⟨hc, hcs⟩ := List.cons_eq_cons.mp htypes
      have ht := hv.type
      rw [hc] at ht
      rw [ih (sizeCounts?_eq_some.mpr hcs) hcs, hv.eq (hc.trans ht.eq_shape.symm)]

lemma sizeCounts?_eq_none (h : List.Forall₂ (Value.Over ValueType.Vectorised) vs ws)
    (hnone : sizeCounts? vs = none) : sizeCounts? ws = none := by
  rw [Option.eq_none_iff_forall_ne_some]
  intro counts hcounts
  rw [eq_of_sizeCounts? h hcounts, hnone] at hcounts
  cases hcounts

lemma exists_types_of_sizes (h : ∀ v ∈ vs, ∃ rank, v.type = .shape rank) :
    ∃ counts : List Size, vs.map Value.type = counts.map ValueType.shape := by
  induction vs with
  | nil => exact ⟨[], rfl⟩
  | cons v vs ih =>
    obtain ⟨c, hc⟩ := h v (by simp)
    obtain ⟨cs, hcs⟩ := ih fun w hw => h w (by simp [hw])
    exact ⟨c :: cs, by rw [List.map_cons, List.map_cons, hc, hcs]⟩

lemma exists_shape_of_types (h : vs.map Value.type = counts.map ValueType.shape) (hv : v ∈ vs) :
    ∃ rank, v.type = .shape rank := by
  have hmem : v.type ∈ counts.map ValueType.shape := h ▸ List.mem_map_of_mem hv
  obtain ⟨rank, -, hrank⟩ := List.mem_map.mp hmem
  exact ⟨rank, hrank.symm⟩

lemma mapM_dims_of_sizes (h : vs.map Value.type = counts.map ValueType.shape) :
    vs.mapM (·.type.dims?) = some (counts.map ([·])) := calc
  vs.mapM (·.type.dims?) = (vs.map Value.type).mapM ValueType.dims? := by
    rw [List.mapM_map]
    rfl
  _ = (counts.map ValueType.shape).mapM ValueType.dims? := by rw [h]
  _ = counts.mapM fun c => pure [c] := List.mapM_map
  _ = some (counts.map ([·])) := List.mapM_pure

lemma joinedShape_singletons (hne : counts ≠ []) :
    joinedShape (.number 0) (counts.map ([·])) = (Size.sum counts).map ([·]) := by
  have hget : (counts.map ([·])).mapM (Place.get · 0) = Except.ok counts := by
    have hmap : counts.mapM ((Place.get · 0) ∘ ([·])) = Except.ok (counts.map id) :=
      Except.mapM_eq_ok_map fun _ _ => rfl
    rwa [List.map_id, ← List.mapM_map] at hmap
  have hindex : (Quantity.number 0).index = .ok 0 := rfl
  unfold joinedShape
  rw [hindex, Except.ok_bind, hget, Except.ok_bind]
  cases counts with
  | nil => exact absurd rfl hne
  | cons c cs => cases Size.sum (c :: cs) <;> rfl

/-- The join of vectors of sizes. -/
lemma concat_sizes (hout : n.outputs.length = 1) (hne : n.inputs ≠ [])
    (hcounts : sizeCounts? n.inputs = some counts) :
    concat n = (do return .shape (← Size.sum counts)) := by
  simp [concat, hout, hne, hcounts]

/-- The join of vectors of integers. -/
lemma concat_vectors (hout : n.outputs.length = 1) (hne : n.inputs ≠ [])
    (hmixed : sizeCounts? n.inputs = none)
    (htypes : ∀ v ∈ n.inputs, v.type.element = .int64 ∧ v.type.rank = 1)
    (hdims : n.inputs.mapM (·.type.dims?) = some (counts.map ([·]))) : concat n = (do
      let axis ← joinAxis n 1
      return .tensor .int64 1 (some (← joinedShape axis (counts.map ([·]))))) := by
  obtain ⟨first, hfirst⟩ : ∃ v, n.inputs[0]? = some v := by
    cases hvs : n.inputs with
    | nil => exact absurd hvs hne
    | cons v vs => exact ⟨v, rfl⟩
  obtain ⟨helement, hrank⟩ := htypes first (List.mem_of_getElem? hfirst)
  have hranks : (n.inputs.any fun v => ! v.type.rank.equals 1) = false := by
    rw [List.any_eq_false]
    intro v hv
    rw [(htypes v hv).2]
    decide
  simp only [concat, hout, hne, hmixed, Node.input_eq_ok.mpr hfirst, Except.ok_bind, hrank, hranks,
    helement, hdims, ne_eq, not_true_eq_false, or_self, if_false, Bool.false_eq_true]
  refine bind_congr fun axis => ?_
  cases joinedShape axis (counts.map ([·])) <;> rfl

/-- The place that a vector's axis has among one. -/
def placeOfOne (a : Int) : Int := if a < 0 then a + 1 else a

lemma Node.OnlyAxis.placeOfOne (h : n.OnlyAxis) :
    ∃ a, n.axis? = some a ∧ TensorGraph.placeOfOne a = 0 := by
  rcases h with h | h
  · exact ⟨0, h, rfl⟩
  · exact ⟨-1, h, rfl⟩

/-- The selection from a vector of sizes. -/
lemma gather_sizes {rank : Size} (hv : n.input 0 = .ok v) (hi : n.input 1 = .ok i)
    (ht : v.type = .shape rank) : gather n =
    if i.type.rank.equals 0 then .ok (.scalar .int64)
    else do return .shape (.whole (← Size.product (i.type.dims?.getD []))) := by
  obtain ⟨name, t, literal, used⟩ := v
  obtain rfl : t = .shape rank := ht
  simp only [gather, hv, hi]
  rfl

/-- The selection from a vector of integers. -/
lemma gather_vector {rank : Size} {q : Int} (hv : n.input 0 = .ok v) (hi : n.input 1 = .ok i)
    (ht : v.type = .tensor .int64 1 (some [rank])) (haxis : n.axis? = some a)
    (hq : i.type.rank = .whole q) : gather n = .ok (.ofRank .int64 (.whole q)
      (i.type.dims?.map fun is =>
        Place.before [rank] (placeOfOne a) ++ is ++ Place.onward [rank] (placeOfOne a + 1))) := by
  have hnormal : (Quantity.number (.whole a)).normalize 1 = _ := Quantity.normalize_whole a 1
  have hsum : 1 + q - 1 = q := by omega
  rw [gather_of_ne_shape hv hi (by simp [ht]), quantity_axis haxis, Except.ok_bind, ht, hq]
  generalize i.type.dims? = d
  simp only [ValueType.rank, ValueType.dims?, ValueType.element]
  rw [hnormal, Except.ok_bind]
  cases d with
  | none =>
    change Except.ok (ValueType.ofRank .int64 (.whole (1 + q - 1)) none) = _
    rw [hsum]
    rfl
  | some is =>
    change Except.ok (ValueType.ofRank .int64 (.whole (1 + q - 1)) (some _)) = _
    rw [hsum]
    rfl

namespace Node.Over

variable (h : n.Over (Value.Over ValueType.Vectorised) n')

include h

lemma reading : n.SameReading n' where
  operator := h.operator.symm
  attributes := h.attributes.symm
  inputs := h.inputs.imp fun _ _ hv => ⟨hv.type.reading, hv.present⟩
  outputs := by
    rw [h.outputs]
    exact List.forall₂_same.mpr fun _ _ => trivial
  literals place _ := h.literal? place

lemma axis? : n'.axis? = n.axis? := by
  rw [Node.axis?, Node.axis?, Node.attribute?_congr h.attributes]

lemma cast_vectorised : Agree ValueType.SameReading (cast n) (cast n') := by
  simp only [Typing.cast, h.inputs.length_eq, h.outputs, Node.attribute?_congr h.attributes]
  split
  · exact .error (.refl _)
  split
  · refine (Agree.refl _).bind fun t _ _ _ ht => (h.input 0).bind fun v w _ _ hv => .pure ?_
    subst ht
    have hvw := hv.type
    revert hvw
    generalize v.type = u, w.type = u'
    rintro (_ | rank)
    · exact .refl _
    · dsimp only
      split
      · next ht =>
        rw [ht]
        exact ⟨rfl, rfl, rfl⟩
      · exact .refl _
  · exact .error (.refl _)

lemma constantOfShape_vectorised : constantOfShape n = constantOfShape n' := by
  simp only [Typing.constantOfShape, fillElement_congr h.attributes]
  refine bind_congr fun t => Node.input_congr h.inputs fun v w hv => ?_
  have hvw := hv.type
  rw [hv.literal]
  revert hvw
  generalize v.type = u, w.type = u'
  rintro (_ | rank) <;> rfl

lemma reshape_vectorised (hop : n.operator = .reshape) : reshape n = reshape n' := by
  refine h.reading.reshape hop fun t => ?_
  have htarget := h.type? 1
  revert htarget
  generalize n.inputs[1]?.map Value.type = o, n'.inputs[1]?.map Value.type = o'
  rintro (hu | _)
  · cases hu <;> rfl
  · rfl

/-- The joins of vectors of sizes, and of the same vectors where some are given by integers. -/
lemma concat_eq (htypes : n.inputs.map Value.type = counts.map ValueType.shape)
    (hreplaced : n'.inputs ≠ n.inputs) (hout : n.outputs.length = 1) :
    concat n = (do return .shape (← Size.sum counts)) ∧ concat n' = (do
      let axis ← joinAxis n 1
      return .tensor .int64 1 (some (← joinedShape axis (counts.map ([·]))))) := by
  have hne : n.inputs ≠ [] := by
    intro hnil
    exact hreplaced (by rw [hnil, (eq_nil_congr h.inputs).mp hnil])
  have hmixed : sizeCounts? n'.inputs = none := by
    rw [Option.eq_none_iff_forall_ne_some]
    exact fun counts hcounts => hreplaced (eq_of_sizeCounts? h.inputs hcounts)
  have hvectors : ∀ w ∈ n'.inputs, w.type.element = .int64 ∧ w.type.rank = 1 := by
    intro w hw
    obtain ⟨v, hv, hvw⟩ := forall₂_exists_of_mem h.inputs.flip hw
    obtain ⟨rank, hrank⟩ := exists_shape_of_types htypes hv
    have hread := hvw.type.reading
    rw [hrank] at hread
    exact ⟨hread.element.symm, hread.rank.symm⟩
  constructor
  · exact concat_sizes hout hne (sizeCounts?_eq_some.mpr htypes)
  · rw [joinAxis_congr h.attributes.symm]
    exact concat_vectors (h.outputs ▸ hout) (mt (eq_nil_congr h.inputs).mpr hne) hmixed hvectors
      ((mapM_dims_congr h.reading.dims).symm.trans (mapM_dims_of_sizes htypes))

/-- Whether all operands are seen as vectors of sizes may change only if they have been such
vectors, and some are not any more. -/
lemma concat_vectorised (hplain : ¬ n.SizesMatter n') (hop : n.operator = .concat) :
    Agree ValueType.SameReading (concat n) (concat n') := by
  have hsame : sizeCounts? n.inputs = sizeCounts? n'.inputs →
      Agree ValueType.SameReading (Typing.concat n) (Typing.concat n') :=
    fun hcounts => (Agree.of_eq (h.reading.concat hcounts)).imp fun t t' ht => ht ▸ .refl t
  cases hcounts : sizeCounts? n.inputs with
  | none => exact hsame (hcounts.trans (sizeCounts?_eq_none h.inputs hcounts).symm)
  | some counts =>
    by_cases hreplaced : n'.inputs = n.inputs
    · exact hsame (by rw [hreplaced])
    have htypes := sizeCounts?_eq_some.mp hcounts
    have haxis : n.OnlyAxis := by
      by_contra haxis
      exact hplain (.join hop (fun v hv => exists_shape_of_types htypes hv) hreplaced haxis)
    by_cases hout : n.outputs.length = 1
    · have hne : counts ≠ [] := by
        rintro rfl
        have hnil : n.inputs = [] := List.map_eq_nil_iff.mp htypes
        exact hreplaced (by rw [hnil, (eq_nil_congr h.inputs).mp hnil])
      obtain ⟨hn, hn'⟩ := h.concat_eq htypes hreplaced hout
      rw [hn, hn', haxis.joinAxis, Except.ok_bind, joinedShape_singletons hne]
      cases Size.sum counts with
      | error e => exact .error (.refl e)
      | ok count => exact .ok ⟨rfl, rfl, rfl⟩
    · simp only [Typing.concat, h.outputs, ne_eq, hout, not_false_eq_true, true_or, if_true]
      exact .error (.refl _)

/-- Typing sees the data of a selection less as a vector of sizes only if it has been replaced. -/
lemma gather_vectorised (hplain : ¬ n.SizesMatter n') (hop : n.operator = .gather) :
    Agree ValueType.SameReading (gather n) (gather n') := by
  have hquantity := Node.quantity_congr h.attributes.symm "axis" 0
  obtain ⟨v, w, hv, hw, hvw⟩ | ⟨hv, hw⟩ := Node.input_cases h.inputs 0
  swap
  · simp only [Typing.gather, hv, hw]
    exact .error (.refl _)
  obtain ⟨i, j, hi, hj, hij⟩ | ⟨hi, hj⟩ := Node.input_cases h.inputs 1
  swap
  · simp only [Typing.gather, hv, hw, hi, hj]
    exact .error (.refl _)
  have hindices := hij.type.reading
  obtain ht | ⟨rank, ht, ht'⟩ := hvw.type.eq_or
  · refine (Agree.of_eq ?_).imp fun t t' htt => htt ▸ .refl t
    simp only [Typing.gather, hv, hw, hi, hj, Except.ok_bind, ht, hindices.rank, hindices.dims,
      hquantity]
  · rw [gather_sizes hv hi ht]
    by_cases hplace : i.type.rank = 0 ∧ n.axis?.isSome
    · obtain ⟨hrank, haxis⟩ := hplace
      obtain ⟨a, ha⟩ := Option.isSome_iff_exists.mp haxis
      rw [gather_vector hw hj ht' (h.axis? ▸ ha) (hindices.rank.symm.trans hrank), hrank]
      exact .ok (ValueType.SameReading.refl (.scalar .int64))
    by_cases hplaces : i.type.rank = 1 ∧ (∃ k : Int, i.type.dims? = some [.whole k]) ∧ n.OnlyAxis
    · obtain ⟨hrank, ⟨k, hk⟩, haxis⟩ := hplaces
      obtain ⟨a, ha, hfirst⟩ := haxis.placeOfOne
      rw [gather_vector hw hj ht' (h.axis? ▸ ha) (hindices.rank.symm.trans hrank), hrank,
        if_neg (by decide), ← hindices.dims, hk, hfirst, Option.getD_some, product_singleton]
      exact .ok ⟨rfl, rfl, rfl⟩
    · exact absurd (.selection hop hv hw hi (by simp [ht, ht']) hplace hplaces) hplain

/-- A rule gives the nodes types that read alike, or refuses both. -/
theorem rule_vectorised {rule : Node → Except Error ValueType} (hplain : ¬ n.SizesMatter n')
    (hrule : rule? n.operator = some rule) : Agree ValueType.SameReading (rule n) (rule n') := by
  have himp : ∀ {x y}, Agree (· = ·) x y → Agree ValueType.SameReading x y :=
    fun hxy => hxy.imp fun t t' ht => ht ▸ .refl t
  by_cases hop : n.operator ∈ [.cast, .constantOfShape, .reshape, .concat, .gather]
  · cases ho : n.operator <;> simp only [ho, List.mem_cons, reduceCtorEq, or_false, or_true,
      List.not_mem_nil] at hop <;> simp only [ho, rule?, Option.some.injEq] at hrule <;> subst hrule
    case cast => exact h.cast_vectorised
    case constantOfShape => exact himp (.of_eq h.constantOfShape_vectorised)
    case reshape => exact himp (.of_eq (h.reshape_vectorised ho))
    case concat => exact h.concat_vectorised hplain ho
    case gather => exact h.gather_vectorised hplain ho
  · exact himp (h.reading.rule hrule hop)

end Node.Over

/-- A vector of sizes is typed as a vector of that many wide integers: both nodes are refused, or
both are typed, with outputs that have the same elements, rank and sizes, unless the operand is
joined or selected from as a vector of sizes. -/
theorem Node.infer_vectorised (h : n.Over (Value.Over ValueType.Vectorised) n')
    (hplain : ¬ n.SizesMatter n') :
    Agree (fun m m' => List.Forall₂ (fun v w => v.type.SameReading w.type) m.outputs m'.outputs)
      n.infer n'.infer := by
  have hrest : ∀ vs : List Value, List.Forall₂ (fun v w => v.type.SameReading w.type) vs vs :=
    fun vs => List.forall₂_same.mpr fun v _ => .refl v.type
  unfold Node.infer Node.typedOutputs
  rw [h.operator, h.outputs]
  cases hrule : rule? n.operator with
  | none =>
    exact .ok ((h.keepType .same).imp fun _ _ ht => ht.reading)
  | some rule =>
    refine ((h.rule_vectorised hplain hrule).bind fun t t' _ _ ht => ?_).bind
      fun vs ws _ _ hvs => .pure hvs
    cases n.outputs with
    | nil => exact .error (.refl _)
    | cons v vs => exact .pure (.cons ht (hrest vs))

/-- The sizes of two axes, joined with three more. -/
def joinedSizes (t : ValueType) : Node where
  operator := .concat
  name := "concat1"
  inputs := [{ name := "a", type := .shape 2 }, { name := "b", type := t }]
  outputs := [{ name := "y" }]
  attributes := Table.insert ∅ "axis" (.int (-1))

theorem Node.infer_vectorised_joinedSizes :
    (joinedSizes (.shape 3)).Over (Value.Over ValueType.Vectorised)
        (joinedSizes (.tensor .int64 1 (some [3]))) ∧
      ¬ (joinedSizes (.shape 3)).SizesMatter (joinedSizes (.tensor .int64 1 (some [3]))) ∧
      (joinedSizes (.shape 3)).infer.map (·.outputs.map Value.type) = .ok [.shape 5] ∧
      Agree (fun m m' => List.Forall₂ (fun v w => v.type.SameReading w.type) m.outputs m'.outputs)
        (joinedSizes (.shape 3)).infer (joinedSizes (.tensor .int64 1 (some [3]))).infer := by
  have hover : (joinedSizes (.shape 3)).Over (Value.Over ValueType.Vectorised)
      (joinedSizes (.tensor .int64 1 (some [3]))) :=
    ⟨rfl, rfl, .cons ⟨rfl, rfl, rfl, .same _⟩ (.cons ⟨rfl, rfl, rfl, .sizes 3⟩ .nil), rfl, rfl⟩
  have hplain : ¬ (joinedSizes (.shape 3)).SizesMatter
      (joinedSizes (.tensor .int64 1 (some [3]))) := by
    rintro (⟨-, -, -, haxis⟩ | ⟨hop, -⟩)
    · exact haxis (.inr rfl)
    · simp [joinedSizes] at hop
  exact ⟨hover, hplain, by decide +kernel, Node.infer_vectorised hover hplain⟩

/-! ## Where sizes matter -/

/-- The rank and the sizes are integers, and the sizes, if they are known, are as many as the rank
says. -/
structure ValueType.Regular (t : ValueType) : Prop where
  rank : ∃ q : Int, t.rank = .whole q
  dims : ∀ ds, t.dims? = some ds → t.rank = .ofNat ds.length ∧ ∀ d ∈ ds, ∃ k : Int, d = .whole k

lemma exists_sum_eq_ok (h : ∀ c ∈ counts, ∃ k : Int, c = .whole k) :
    ∃ s, Size.sum counts = .ok s := by
  have hfold : ∀ b : Int, ∃ s, counts.foldlM Size.add (.whole b) = .ok s := by
    induction counts with
    | nil => exact fun b => ⟨.whole b, rfl⟩
    | cons c cs ih =>
      intro b
      obtain ⟨k, rfl⟩ := h c (by simp)
      rw [List.foldlM_cons, Size.add_whole, Except.ok_bind]
      exact ih (fun d hd => h d (by simp [hd])) (b + k)
  exact hfold 0

/-- Sizes are put in the place of a vector's axis, and of no other. -/
lemma eq_of_places {rank k p : Size} (h : (Place.before [rank] (placeOfOne a) ++ [k] ++
    Place.onward [rank] (placeOfOne a + 1)).length = [p].length) : a = 0 ∨ a = -1 := by
  simp only [Place.before, Place.onward, Place.clamp, placeOfOne, List.length_append,
    List.length_take, List.length_drop, List.length_cons, List.length_nil] at h
  repeat' split at h
  all_goals omega

lemma Node.onlyAxis_iff (h : n.axis? = some a) : n.OnlyAxis ↔ a = 0 ∨ a = -1 := by
  simp [OnlyAxis, h]

namespace Node.Over

variable (h : n.Over (Value.Over ValueType.Vectorised) n') (haxis : n.axis? = some a)
  (hregular : ∀ v ∈ n.inputs, v.type.Regular)

include h

lemma agree_rule {rule : Node → Except Error ValueType} (hrule : rule? n.operator = some rule)
    (hout : n.outputs.length = 1)
    (hagree : Agree (fun m m' => List.Forall₂ (fun v w => v.type.SameReading w.type)
      m.outputs m'.outputs) n.infer n'.infer) :
    Agree ValueType.SameReading (rule n) (rule n') := by
  obtain ⟨v, hv⟩ := List.length_eq_one_iff.mp hout
  simp only [Node.infer, Node.typedOutputs, h.operator, h.outputs, hrule, hv] at hagree
  cases hn : rule n <;> cases hn' : rule n' <;> rw [hn, hn'] at hagree
  · exact hagree
  · exact hagree
  · exact hagree
  · obtain ⟨ht, -⟩ := List.forall₂_cons.mp hagree
    exact ht

include haxis hregular

/-- Only the join of integers looks at the axis. -/
lemma concat_not_agree (hsizes : ∀ v ∈ n.inputs, ∃ rank, v.type = .shape rank)
    (hreplaced : n'.inputs ≠ n.inputs) (hother : ¬ n.OnlyAxis) (hout : n.outputs.length = 1) :
    ¬ Agree ValueType.SameReading (Typing.concat n) (Typing.concat n') := by
  obtain ⟨counts, hcounts⟩ := exists_types_of_sizes hsizes
  have hwhole : ∀ c ∈ counts, ∃ k : Int, c = .whole k := by
    intro c hc
    have hmem : ValueType.shape c ∈ n.inputs.map Value.type := hcounts ▸ List.mem_map_of_mem hc
    obtain ⟨v, hv, hvc⟩ := List.mem_map.mp hmem
    exact ((hregular v hv).dims [c] (by rw [hvc]; rfl)).2 c (by simp)
  obtain ⟨s, hs⟩ := exists_sum_eq_ok hwhole
  obtain ⟨hn, hn'⟩ := h.concat_eq hcounts hreplaced hout
  rw [hn, hn', hs, joinAxis_one haxis, if_neg (mt (Node.onlyAxis_iff haxis).mpr hother)]
  exact id

/-- The selection from sizes takes indices of any rank for one axis, and of unknown number for one
index. -/
lemma gather_not_agree (hv : n.input 0 = .ok v) (hw : n'.input 0 = .ok w) (hi : n.input 1 = .ok i)
    (hreplaced : w.type ≠ v.type) (hplace : ¬ (i.type.rank = 0 ∧ n.axis?.isSome))
    (hplaces : ¬ (i.type.rank = 1 ∧ (∃ k : Int, i.type.dims? = some [.whole k]) ∧ n.OnlyAxis)) :
    ¬ Agree ValueType.SameReading (Typing.gather n) (Typing.gather n') := by
  obtain ⟨j, hj, hij⟩ := (h.input 1).eq_ok hi
  have hvw := h.input 0
  rw [hv, hw] at hvw
  have hindices := hij.type.reading
  have hi' := hregular i (List.mem_of_getElem? (Node.input_eq_ok.mp hi))
  obtain ⟨q, hq⟩ := hi'.rank
  obtain ⟨rank, ht, ht'⟩ := hvw.type.eq_or.resolve_left hreplaced
  have hne : q ≠ 0 := by
    rintro rfl
    exact hplace ⟨hq, by rw [haxis]; rfl⟩
  have hzero : ¬ (Size.whole q).equals 0 = true := by
    change ¬ decide (q = 0) = true
    simpa using hne
  rw [gather_sizes hv hi ht, gather_vector hw hj ht' (h.axis? ▸ haxis)
    (hindices.rank.symm.trans hq), hq, if_neg hzero, ValueType.ofRank, if_neg hzero]
  cases hp : Size.product (i.type.dims?.getD []) with
  | error e => exact id
  | ok p =>
    intro hread
    have hread : ValueType.SameReading (.shape (.whole p)) _ := hread
    obtain rfl : 1 = q := Size.whole.inj hread.rank
    obtain ⟨is, his, hpicked⟩ := Option.map_eq_some_iff.mp hread.dims.symm
    obtain ⟨hlength, hwhole⟩ := hi'.dims is (hindices.dims.trans his)
    have hone : is.length = 1 := by
      have := Size.whole.inj (hq.symm.trans hlength)
      omega
    obtain ⟨k, rfl⟩ := List.length_eq_one_iff.mp hone
    obtain ⟨k, rfl⟩ := hwhole k (by simp)
    have hfirst := eq_of_places (congrArg List.length hpicked)
    exact hplaces ⟨hq, ⟨k, hindices.dims.trans his⟩, (Node.onlyAxis_iff haxis).mpr hfirst⟩

end Node.Over

/-- With integer sizes and an integer axis, the two representations of an operand are told apart in
all of these cases. -/
theorem Node.SizesMatter.not_agree (hmatter : n.SizesMatter n')
    (h : n.Over (Value.Over ValueType.Vectorised) n') (haxis : n.axis? = some a)
    (hout : n.outputs.length = 1) (hregular : ∀ v ∈ n.inputs, v.type.Regular) :
    ¬ Agree (fun m m' => List.Forall₂ (fun v w => v.type.SameReading w.type) m.outputs m'.outputs)
      n.infer n'.infer := by
  intro hagree
  cases hmatter with
  | join hop hsizes hreplaced hother =>
    have hconcat : rule? n.operator = some concat := by rw [hop]; rfl
    exact h.concat_not_agree haxis hregular hsizes hreplaced hother hout
      (h.agree_rule hconcat hout hagree)
  | selection hop hv hw hi hreplaced hplace hplaces =>
    have hgather : rule? n.operator = some gather := by rw [hop]; rfl
    exact h.gather_not_agree haxis hregular hv hw hi hreplaced hplace hplaces
      (h.agree_rule hgather hout hagree)

/-- A selection from the sizes of four axes, by indices of unknown number. -/
def pickedSizes (t : ValueType) : Node where
  operator := .gather
  name := "gather1"
  inputs := [{ name := "s", type := t }, { name := "i", type := .tensor .int64 1 none }]
  outputs := [{ name := "y" }]

/-- From the vector of sizes one size is taken to be picked, from the vector of integers any number
of them. -/
theorem pickedSizes_differ :
    (pickedSizes (.shape 4)).Over (Value.Over ValueType.Vectorised)
        (pickedSizes (.tensor .int64 1 (some [4]))) ∧
      (pickedSizes (.shape 4)).infer.map (·.outputs.map Value.type) = .ok [.shape 1] ∧
      (pickedSizes (.tensor .int64 1 (some [4]))).infer.map (·.outputs.map Value.type) =
        .ok [.tensor .int64 1 none] ∧
      ¬ Agree (fun m m' => List.Forall₂ (fun v w => v.type.SameReading w.type) m.outputs m'.outputs)
        (pickedSizes (.shape 4)).infer (pickedSizes (.tensor .int64 1 (some [4]))).infer := by
  have hover : (pickedSizes (.shape 4)).Over (Value.Over ValueType.Vectorised)
      (pickedSizes (.tensor .int64 1 (some [4]))) :=
    ⟨rfl, rfl, .cons ⟨rfl, rfl, rfl, .sizes 4⟩ (.cons ⟨rfl, rfl, rfl, .same _⟩ .nil), rfl, rfl⟩
  have hmatter : (pickedSizes (.shape 4)).SizesMatter
      (pickedSizes (.tensor .int64 1 (some [4]))) := by
    refine .selection rfl rfl rfl rfl (by decide) (by decide) ?_
    rintro ⟨-, ⟨k, hk⟩, -⟩
    cases hk
  refine ⟨hover, by decide +kernel, by decide +kernel, hmatter.not_agree hover rfl rfl ?_⟩
  intro v hv
  obtain rfl | rfl : v = { name := "s", type := .shape 4 } ∨
      v = { name := "i", type := .tensor .int64 1 none } := by
    simpa [pickedSizes] using hv
  · refine ⟨⟨1, rfl⟩, fun ds hds => ?_⟩
    obtain rfl := Option.some.inj hds
    exact ⟨rfl, fun d hd => ⟨4, List.mem_singleton.mp hd⟩⟩
  · exact ⟨⟨1, rfl⟩, fun ds hds => by cases hds⟩

end TensorGraph
