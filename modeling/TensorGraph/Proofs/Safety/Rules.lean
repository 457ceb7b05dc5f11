import TensorGraph.Proofs.Broadcasts
import TensorGraph.Proofs.Safety.Defects

/-!
# Safe rules

The rules for operators without windows refuse a node without a defect with a coded error.
-/

namespace TensorGraph

open Typing ValueType Onnx

variable {n : Node} {v w x : Value} {t u : ValueType} {vs : List Value} {ds es is : List Int}
  {r q : Nat} {key : String} {a : Attribute}

lemma exists_map_whole {sizes : List Size} (h : ∀ s ∈ sizes, ∃ k : Int, s = .whole k) :
    ∃ ds : List Int, sizes = ds.map .whole := by
  induction sizes with
  | nil => exact ⟨[], rfl⟩
  | cons s sizes ih =>
    obtain ⟨k, rfl⟩ := h s (by simp)
    obtain ⟨ds, rfl⟩ := ih fun s hs => h s (by simp [hs])
    exact ⟨k :: ds, rfl⟩

lemma exists_of_mem_mapM {α β : Type} {f : α → Option β} {as : List α} {bs : List β} {b : β}
    (h : as.mapM f = some bs) (hb : b ∈ bs) : ∃ a ∈ as, f a = some b := by
  induction as generalizing bs with
  | nil =>
    obtain rfl : [] = bs := by simpa using h
    simp at hb
  | cons a as ih =>
    simp only [List.mapM_cons, Option.bind_eq_bind, Option.bind_eq_some_iff, Option.pure_def,
      Option.some.injEq] at h
    obtain ⟨b', hb', bs', hbs', rfl⟩ := h
    rcases List.mem_cons.mp hb with rfl | hb
    · exact ⟨a, by simp, hb'⟩
    · obtain ⟨a', ha', hf⟩ := ih hbs' hb
      exact ⟨a', by simp [ha'], hf⟩

lemma coded_broadcastDims (ds es : List Int) :
    FailsOnly Error.Coded (broadcastDims (ds.map .whole) (es.map .whole)) :=
  (failsOnly_broadcastDims ds es).imp fun _ => Error.IsTyping.coded

lemma coded_foldlM_broadcastDims {shapes : List (List Size)}
    (h : ∀ sizes ∈ shapes, ∃ ds : List Int, sizes = ds.map .whole) (es : List Int) :
    FailsOnly Error.Coded (shapes.foldlM broadcastDims (es.map .whole)) := by
  induction shapes generalizing es with
  | nil => simp
  | cons sizes shapes ih =>
    obtain ⟨ds, rfl⟩ := h sizes (by simp)
    rw [List.foldlM_cons, failsOnly_bind]
    refine ⟨coded_broadcastDims es ds, fun sizes hsizes => ?_⟩
    obtain ⟨ks, rfl⟩ := broadcastDims_whole hsizes
    exact ih (fun sizes hs => h sizes (by simp [hs])) ks

lemma coded_broadcastShape (h : ∀ v ∈ vs, v.type.Proper) :
    FailsOnly Error.Coded (broadcastShape vs) := by
  unfold broadcastShape
  split
  · next shapes hshapes =>
    rw [failsOnly_map]
    refine coded_foldlM_broadcastDims (fun sizes hsizes => ?_) []
    obtain ⟨v, hv, hdims⟩ := exists_of_mem_mapM hshapes hsizes
    obtain ⟨ds, rfl, -, -⟩ := (h v hv).exists_sizes hdims
    exact ⟨ds, rfl⟩
  · simp

lemma exists_maxRank (h : ∀ v ∈ vs, v.type.Proper) : ∃ r, maxRank vs = .ok (.ofNat r) := by
  have hcounts : ∀ v ∈ vs, v.type.CountsAxes := by
    intro v hv
    obtain ⟨r, -, hr⟩ := (h v hv).exists_axes
    exact ⟨r, hr⟩
  obtain ⟨rs, hrs⟩ := exists_ranks hcounts
  exact ⟨_, maxRank_eq hrs⟩

lemma mem_of_mem_presentOperands (h : v ∈ presentOperands n) : v ∈ n.inputs := by
  unfold presentOperands at h
  split at h
  · exact h
  · exact List.mem_of_mem_filter h

lemma coded_promoteAll (vs : List Value) : FailsOnly Error.Coded (promoteAll vs) := by
  unfold promoteAll
  split <;> simp

lemma coded_entrywise (h : ∀ v ∈ n.inputs, v.type.Proper) :
    FailsOnly Error.Coded (entrywise n) := by
  have hpresent : ∀ v ∈ presentOperands n, v.type.Proper :=
    fun v hv => h v (mem_of_mem_presentOperands hv)
  obtain ⟨r, hr⟩ := exists_maxRank hpresent
  simp [entrywise, entrywiseElement, coded_promoteAll, hr, coded_broadcastShape hpresent]

lemma coded_select (h : ∀ v ∈ n.inputs, v.type.Proper) : FailsOnly Error.Coded (select n) := by
  obtain ⟨r, hr⟩ := exists_maxRank h
  by_cases harity : n.inputs.length ≠ 3 ∨ n.outputs.length ≠ 1
  · simp [select, harity]
  · obtain ⟨v, -, hv⟩ := Node.exists_input_of_lt (n := n) (i := 1) (by omega)
    simp [select, harity, hr, hv, coded_broadcastShape h]

lemma coded_dataType {code : Int}
    (h : ¬ (DataType.element? code = none ∧ DataType.shownName? code = none)) :
    FailsOnly Error.Coded (DataType.element code) := by
  unfold DataType.element
  split
  · simp
  · simp
  · next hnone hname => exact absurd ⟨hnone, hname⟩ h

lemma coded_cast (hn : ¬ n.Defective) (hop : n.operator = .cast) :
    FailsOnly Error.Coded (Typing.cast n) := by
  unfold Typing.cast
  by_cases harity : n.inputs.length ≠ 1 ∨ n.outputs.length ≠ 1
  · simp [harity]
  · obtain ⟨x, -, hx⟩ := Node.exists_input_of_lt (n := n) (i := 0) (by omega)
    simp only [harity, if_false, hx]
    split
    · next code hto =>
      have htype : FailsOnly Error.Coded (DataType.element code) :=
        coded_dataType fun h => hn (.target hop hto h.1 h.2)
      simp [htype]
    · simp

lemma coded_toSingle {x : Scalar} (h : ∀ s, x ≠ .text s) (h' : ∀ re im, x ≠ .complex re im) :
    FailsOnly Error.Coded x.toSingle := by
  cases x with
  | text s => exact absurd rfl (h s)
  | complex re im => exact absurd rfl (h' re im)
  | _ => simp [Scalar.toSingle]

lemma coded_toWide {i : Int} (h : Size.isSigned i = true) :
    FailsOnly Error.Coded (Scalar.int i).toWide := by
  have hword : Int.bmod i (2 ^ 64) = i := bmod_word h
  simp only [Scalar.toWide, Scalar.toInt, Except.ok_bind, hword]
  simp

lemma coded_literalUnder (hn : ¬ n.Malformed) (hop : n.operator = .constant)
    (ha : n.attribute? key = some a) : FailsOnly Error.Coded (a.literalUnder key) := by
  unfold Attribute.literalUnder
  split
  · next hkey =>
    have hsignature : (key, Attribute.Kind.textless) ∈ n.operator.signature := by
      simp only [floatKeys, List.mem_cons, List.not_mem_nil, or_false] at hkey
      rcases hkey with rfl | rfl <;> simp [hop, Operator.signature]
    obtain ⟨hstring, hstrings, hbytes⟩ := Node.attribute_isOf hn _ hsignature ha
    cases a with
    | string s => exact absurd rfl (hstring s)
    | strings ss => exact absurd rfl (hstrings ss)
    | bytes bs => exact absurd rfl (hbytes bs)
    | _ => simp [Attribute.toLiteral, coded_toSingle]
  · split
    · next hkey =>
      simp only [integerKeys, List.mem_cons, List.not_mem_nil, or_false] at hkey
      rcases hkey with rfl | rfl
      · obtain ⟨i, rfl, hi⟩ := Node.attribute_isOf hn .integer
          (by simp [hop, Operator.signature]) ha
        simp [Attribute.toLiteral, coded_toWide hi]
      · obtain ⟨is, rfl, his⟩ := Node.attribute_isOf hn .integers
          (by simp [hop, Operator.signature]) ha
        simp only [Attribute.toLiteral, failsOnly_map]
        exact failsOnly_mapM fun i hi => coded_toWide (his.words i hi)
    · cases a <;> simp [Attribute.toLiteral, Attribute.byteText]

lemma coded_constant (hn : ¬ n.Malformed) (hop : n.operator = .constant) :
    FailsOnly Error.Coded (constant n) := by
  have hconstant : FailsOnly Error.Coded n.constant := by
    unfold Node.constant
    split
    · next key a hfind =>
      obtain ⟨key', hmem, hkey⟩ := List.exists_of_findSome?_eq_some hfind
      obtain ⟨a', ha, hpair⟩ := Option.map_eq_some_iff.mp hkey
      obtain ⟨rfl, rfl⟩ := Prod.mk.inj hpair
      simp [coded_literalUnder hn hop ha]
    · simp
  simp [constant, hconstant]

lemma coded_fillElement : FailsOnly Error.Coded (fillElement n) := by
  unfold fillElement
  split <;> simp

lemma coded_constantOfShape (hn : ¬ n.Defective) (hop : n.operator = .constantOfShape) :
    FailsOnly Error.Coded (constantOfShape n) := by
  have hform : ¬ n.Malformed := mt .malformed hn
  obtain ⟨x, -, hx⟩ := Node.exists_input (i := 0) hform (by simp [hop, Operator.required])
  simp only [constantOfShape, failsOnly_bind, coded_fillElement, true_and, hx]
  intro t _
  simp only [failsOnly_ok, Except.ok.injEq, forall_eq', true_and]
  split
  · next a ha =>
    have hliteral : n.literal? 0 = some a := by
      rw [Node.literal?, Node.input_eq_ok.mp hx]
      exact ha
    have hints : ∃ is, a.toInts = .ok is := by
      by_contra hnone
      refine hn (.literal (by simp [hop, Operator.consulted]) hliteral ?_)
      exact fun is his => absurd ⟨is, his⟩ hnone
    obtain ⟨is, his⟩ := hints
    simp [his]
  · repeat' split
    all_goals simp

lemma Quantity.normalize_ofNat (i : Int) (r : Nat) : (number (.whole i)).normalize (.ofNat r) =
    .ok (number (.whole (if i < 0 then i + r else i))) := normalize_whole i r

lemma exists_placesBetween (r i j : Int) : ∃ s,
    placesBetween (.whole r) (.number (.whole i)) (.number (.whole j)) = .ok s := by
  have hcompare : ∀ a b : Int,
      (Quantity.number (.whole a)).compare? (.whole b) = .ok (some (compare a b)) := fun _ _ => rfl
  have hsub : ∀ a b : Int, (Quantity.number (.whole a)).sub (.number (.whole b)) =
      .ok (.number (.whole (a - b))) := fun _ _ => rfl
  obtain ⟨last, hlast⟩ : ∃ last : Int, (if some (compare j r) = some .gt then
      Quantity.number (.whole r) else .number (.whole j)) = .number (.whole last) := by
    split
    · exact ⟨r, rfl⟩
    · exact ⟨j, rfl⟩
  obtain ⟨first, hfirst⟩ : ∃ first : Int, (if decide (i < 0) = true then
      Quantity.number 0 else .number (.whole i)) = .number (.whole first) := by
    split
    · exact ⟨0, rfl⟩
    · exact ⟨i, rfl⟩
  simp only [placesBetween, hcompare, Except.ok_bind, Quantity.isNegative_whole, hlast, hfirst, hsub]
  have hpositive : (Quantity.number (.whole (last - first))).compare? 0 =
      .ok (some (compare (last - first) 0)) := rfl
  rw [hpositive, Except.ok_bind]
  split
  · exact ⟨_, rfl⟩
  · exact ⟨_, rfl⟩

lemma coded_shape (hn : ¬ n.Malformed) (hop : n.operator = .shape) :
    FailsOnly Error.Coded (Typing.shape n) := by
  unfold Typing.shape
  by_cases harity : n.inputs.length ≠ 1 ∨ n.outputs.length ≠ 1
  · simp [harity]
  · obtain ⟨x, hmem, hx⟩ := Node.exists_input_of_lt (n := n) (i := 0) (by omega)
    have hproper : x.type.Proper := Node.proper_of_mem hn (by rw [hop]; rfl) hmem
    obtain ⟨r, -, hr⟩ := hproper.exists_axes
    obtain ⟨i, (hi : n.quantity "start" 0 = _)⟩ :=
      Node.exists_quantity hn "start" (by simp [hop, Operator.signature]) 0
    obtain ⟨j, (hj : n.quantity "end" (.ofNat r) = _)⟩ :=
      Node.exists_quantity hn "end" (by simp [hop, Operator.signature]) r
    obtain ⟨s, (hs : placesBetween (.ofNat r) _ _ = _)⟩ :=
      exists_placesBetween r (if i < 0 then i + r else i) (if j < 0 then j + r else j)
    simp [harity, hx, hr.rank, hi, hj, Quantity.normalize_ofNat, hs]

/-! ## Rearrangements -/

lemma exists_mapM_forall {ε α β : Type} {f : α → Except ε β} {P : β → Prop} {as : List α}
    (h : ∀ a ∈ as, ∃ b, f a = .ok b ∧ P b) : ∃ bs, as.mapM f = .ok bs ∧ ∀ b ∈ bs, P b := by
  obtain ⟨bs, hbs⟩ := Except.exists_mapM_eq_ok fun a ha => (h a ha).imp fun _ => And.left
  refine ⟨bs, hbs, fun b hb => ?_⟩
  obtain ⟨i, hi⟩ := List.getElem?_of_mem hb
  obtain ⟨a, ha, hab⟩ := forall₂_getElem? (Except.mapM_eq_ok hbs) hi
  obtain ⟨b', hb', hP⟩ := h a (List.mem_of_getElem? ha)
  rw [hb'] at hab
  exact Except.ok.inj hab ▸ hP

lemma onward_map_whole (ds : List Int) (i : Int) :
    Place.onward (ds.map Size.whole) i = (Place.onward ds i).map Size.whole := by
  simp [Place.onward, List.map_drop]

lemma exists_keepZeros (hn : ¬ n.Malformed) (hop : n.operator = .reshape)
    (hds : ∀ d ∈ ds, Size.isSigned d = true) (his : ∀ i ∈ is, Size.isSigned i = true) :
    ∃ ks : List Int, keepZeros n (ds.map .whole) is = .ok (ks.map .whole) ∧
      ∀ k ∈ ks, Size.isSigned k = true := by
  obtain ⟨allowed, hallowed⟩ :=
    Node.exists_flag hn "allowzero" (by simp [hop, Operator.signature]) false
  have hstep : ∀ e ∈ is.zipIdx, ∃ s, (do
      if e.1 ≠ 0 then return Size.whole e.1
      if ← n.flag "allowzero" false then return 0
      return ((ds.map Size.whole)[e.2]?).getD 0 : Except Error Size) = .ok s ∧
      ∃ k : Int, s = .whole k ∧ Size.isSigned k = true := by
    intro e he
    by_cases hzero : e.1 = 0
    · rw [if_neg (by simpa using hzero), hallowed]
      cases allowed with
      | true => exact ⟨_, rfl, 0, rfl, by decide⟩
      | false =>
        refine ⟨_, rfl, ?_⟩
        rw [List.getElem?_map]
        cases hd : ds[e.2]? with
        | none => exact ⟨0, rfl, by decide⟩
        | some d => exact ⟨d, rfl, hds d (List.mem_of_getElem? hd)⟩
    · rw [if_pos hzero]
      exact ⟨_, rfl, e.1, rfl, his e.1 (List.fst_mem_of_mem_zipIdx he)⟩
  obtain ⟨sizes, hsizes, hall⟩ := exists_mapM_forall hstep
  obtain ⟨ks, rfl⟩ := exists_map_whole fun s hs => (hall s hs).imp fun _ => And.left
  refine ⟨ks, hsizes, fun k hk => ?_⟩
  obtain ⟨k', heq, hk'⟩ := hall (.whole k) (List.mem_map_of_mem hk)
  exact Size.whole.inj heq ▸ hk'

lemma exists_fillInferred (hds : ∀ d ∈ ds, Size.isSigned d = true)
    (his : ∀ i ∈ is, Size.isSigned i = true) :
    ∃ sizes, fillInferred (ds.map .whole) (is.map .whole) = .ok sizes := by
  unfold fillInferred
  split
  · exact ⟨_, rfl⟩
  · rw [List.filter_map, Size.product_of_signed fun i hi => his i (List.mem_of_mem_filter hi),
      Size.product_of_signed hds]
    exact ⟨_, rfl⟩

lemma coded_reshapeTo (hn : ¬ n.Malformed) (hop : n.operator = .reshape) (ht : t.Proper)
    (his : Size.Listable is) : FailsOnly Error.Coded (reshapeTo n t is) := by
  cases hdims : t.dims? with
  | none => simp [reshapeTo, hdims]
  | some sizes =>
    obtain ⟨ds, rfl, -, hds⟩ := ht.exists_sizes hdims
    obtain ⟨ks, hks, hsigned⟩ := exists_keepZeros hn hop hds.words his.words
    obtain ⟨filled, hfilled⟩ := exists_fillInferred hds.words hsigned
    simp [reshapeTo, hdims, hks, hfilled]

lemma coded_reshapeAtRun (t : ValueType) (target : Option ValueType) :
    FailsOnly Error.Coded (reshapeAtRun t target) := by
  unfold reshapeAtRun
  repeat' split
  all_goals simp

lemma coded_reshape (hn : ¬ n.Defective) (hop : n.operator = .reshape) :
    FailsOnly Error.Coded (reshape n) := by
  have hform : ¬ n.Malformed := mt .malformed hn
  unfold reshape
  by_cases harity : n.outputs.length ≠ 1 ∨ n.inputs.length ≠ 1 ∧ n.inputs.length ≠ 2
  · simp [harity]
  obtain ⟨x, hmem, hx⟩ := Node.exists_input_of_lt (n := n) (i := 0) (by omega)
  have hproper : x.type.Proper := Node.proper_of_mem hform (by rw [hop]; rfl) hmem
  rcases Node.integers?_cases hn 1 "shape" (by simp [hop, Operator.consulted])
    (by simp [hop, Operator.signature]) with hnone | ⟨is, his, hsome⟩
  · simp [harity, hx, hnone, coded_reshapeAtRun]
  · simp [harity, hx, hsome, coded_reshapeTo hform hop hproper his]

lemma coded_flatten (hn : ¬ n.Malformed) (hop : n.operator = .flatten) :
    FailsOnly Error.Coded (flatten n) := by
  obtain ⟨x, hmem, hx⟩ := Node.exists_input (i := 0) hn (by simp [hop, Operator.required])
  have hproper : x.type.Proper := Node.proper_of_mem hn (by rw [hop]; rfl) hmem
  obtain ⟨r, -, hr⟩ := hproper.exists_axes
  obtain ⟨i, (hi : n.quantity "axis" 1 = _)⟩ :=
    Node.exists_quantity hn "axis" (by simp [hop, Operator.signature]) 1
  have hindex : ∀ k : Int, (Quantity.number (.whole k)).index = .ok k := fun _ => rfl
  cases hdims : x.type.dims? with
  | none => simp [flatten, hx, hr.rank, hi, Quantity.normalize_ofNat, hdims]
  | some sizes =>
    obtain ⟨ds, rfl, -, hds⟩ := hproper.exists_sizes hdims
    have hbefore : ∀ k, Size.product ((Place.before ds k).map .whole) = .ok _ := fun k =>
      Size.product_of_signed fun d hd => hds.words d (List.mem_of_mem_take hd)
    have honward : ∀ k, Size.product ((Place.onward ds k).map .whole) = .ok _ := fun k =>
      Size.product_of_signed fun d hd => hds.words d (List.mem_of_mem_drop hd)
    simp [flatten, hx, hr.rank, hi, Quantity.normalize_ofNat, hdims, hindex, before_map_whole,
      onward_map_whole, hbefore, honward]

lemma insertionPlace_whole {k : Int} (h : Size.isSigned k = true) :
    insertionPlace (.whole k) = .ok k := by
  simp only [insertionPlace, Size.index, Except.ok_bind, h, if_true]
  rfl

/-- The place of a new axis fits a word, as there are not more axes than two lists may have. -/
lemma exists_insertionPlace {i : Int} (hi : Size.isSigned i = true) (hq : q < 2 ^ 61) :
    ∃ k, (do insertionPlace (← normalizeAxis (.ofNat q) i)) = .ok k := by
  have hrange : -2 ^ 63 ≤ i ∧ i < 2 ^ 63 := by simpa [Size.isSigned] using hi
  by_cases hneg : i < 0
  · have hplace : normalizeAxis (.ofNat q) i = .ok (.whole (i + q)) := if_pos hneg
    have hsum : Size.isSigned (i + q) = true := by
      simp only [Size.isSigned, decide_eq_true_eq]
      omega
    exact ⟨i + q, by rw [hplace, Except.ok_bind, insertionPlace_whole hsum]⟩
  · have hplace : normalizeAxis (.ofNat q) i = .ok (.whole i) := if_neg hneg
    exact ⟨i, by rw [hplace, Except.ok_bind, insertionPlace_whole hi]⟩

lemma coded_unsqueezeAt (ht : t.Proper) (his : Size.Listable is) :
    FailsOnly Error.Coded (unsqueezeAt t is) := by
  obtain ⟨r, -, hr⟩ := ht.exists_axes
  have hsum : Size.add (.ofNat r) (.ofNat is.length) = .ok (.ofNat (r + is.length)) := rfl
  cases hdims : t.dims? with
  | none => simp [unsqueezeAt, hr.rank, hsum, hdims]
  | some sizes =>
    obtain ⟨ds, rfl, -, hds⟩ := ht.exists_sizes hdims
    have hlength : ds.length = r := by simpa using hr.length _ hdims
    have hq : r + is.length < 2 ^ 61 := by
      have hcount := hds.count
      have hcount' := his.count
      omega
    obtain ⟨places, hplaces⟩ := Except.exists_mapM_eq_ok fun i hi =>
      exists_insertionPlace (his.words i hi) hq
    simp [unsqueezeAt, hr.rank, hsum, hdims, hplaces]

lemma leadingDim?_whole (ht : t.Proper) {s : Size} (h : leadingDim? t = some s) :
    ∃ k : Int, s = .whole k := by
  obtain ⟨sizes, hdims, hhead⟩ := Option.bind_eq_some_iff.mp h
  obtain ⟨ds, rfl, -, -⟩ := ht.exists_sizes hdims
  obtain ⟨k, -, rfl⟩ := List.mem_map.mp (List.mem_of_head? hhead)
  exact ⟨k, rfl⟩

lemma coded_unsqueeze (hn : ¬ n.Defective) (hop : n.operator = .unsqueeze) :
    FailsOnly Error.Coded (unsqueeze n) := by
  have hform : ¬ n.Malformed := mt .malformed hn
  have hrule : (rule? n.operator).isSome := by rw [hop]; rfl
  obtain ⟨x, hmem, hx⟩ := Node.exists_input (i := 0) hform (by simp [hop, Operator.required])
  obtain ⟨y, ys, hy⟩ := Node.exists_outputs hform
  have hproper : x.type.Proper := Node.proper_of_mem hform hrule hmem
  have houtput : n.output 0 = .ok y := by simp [Node.output, hy]
  rcases Node.integers?_cases hn 1 "axes" (by simp [hop, Operator.consulted])
    (by simp [hop, Operator.signature]) with hnone | ⟨is, his, hsome⟩
  · simp only [unsqueeze, hx, houtput, hnone, Except.ok_bind]
    split
    · next count hcount =>
      obtain ⟨v, hv, hlead⟩ := Option.bind_eq_some_iff.mp hcount
      have hproper' : v.type.Proper := Node.proper_of_mem hform hrule (List.mem_of_getElem? hv)
      obtain ⟨k, rfl⟩ := leadingDim?_whole hproper' hlead
      obtain ⟨r, -, hr⟩ := hproper.exists_axes
      simp [hr.rank, Size.ofNat]
    · simp
  · simp [unsqueeze, hx, houtput, hsome, coded_unsqueezeAt hproper his]

lemma exists_distinctPlaces (r : Nat) (is : List Int) :
    ∃ places, distinctPlaces (.ofNat r) is = .ok places := by
  have hplace : ∀ i ∈ is, ∃ s, normalizeAxis (.ofNat r) i = .ok s := by
    intro i _
    unfold normalizeAxis
    split
    · exact ⟨_, rfl⟩
    · exact ⟨_, rfl⟩
  obtain ⟨places, hplaces⟩ := Except.exists_mapM_eq_ok hplace
  exact ⟨_, by rw [distinctPlaces, hplaces]; rfl⟩

lemma coded_squeeze (hn : ¬ n.Defective) (hop : n.operator = .squeeze) :
    FailsOnly Error.Coded (squeeze n) := by
  have hform : ¬ n.Malformed := mt .malformed hn
  obtain ⟨x, hmem, hx⟩ := Node.exists_input (i := 0) hform (by simp [hop, Operator.required])
  obtain ⟨y, ys, hy⟩ := Node.exists_outputs hform
  have hproper : x.type.Proper := Node.proper_of_mem hform (by rw [hop]; rfl) hmem
  have houtput : n.output 0 = .ok y := by simp [Node.output, hy]
  rcases Node.integers?_cases hn 1 "axes" (by simp [hop, Operator.consulted])
    (by simp [hop, Operator.signature]) with hnone | ⟨is, -, hsome⟩
  · simp only [squeeze, hx, houtput, hnone, Except.ok_bind]
    split <;> simp
  · obtain ⟨r, -, hr⟩ := hproper.exists_axes
    obtain ⟨places, hplaces⟩ := exists_distinctPlaces r is
    have hsub : ∀ k, Size.sub (.ofNat r) (.ofNat k) = .ok (.whole (r - k)) := fun _ => rfl
    simp [squeeze, hx, houtput, hsome, squeezeAt, hr.rank, hplaces, hsub]

lemma axesUpTo_eq (h : r < 2 ^ 63) : axesUpTo (.ofNat r) = .ok (List.range r) := by
  have hcount : (Size.ofNat r).count = .ok r := Size.count_whole (by exact_mod_cast h)
  rw [axesUpTo, hcount]
  rfl

/-- The axes of a permutation are integers. -/
lemma exists_permutation (hn : ¬ n.Malformed) (hop : n.operator = .transpose)
    (hr : r < 2 ^ 63) : ∃ is : List Int, permutation n (.ofNat r) = .ok (is.map .int) := by
  unfold permutation
  split
  · next a ha =>
    obtain ⟨is, rfl, -⟩ := Node.attribute_isOf hn .integers
          (by simp [hop, Operator.signature]) ha
    exact ⟨is, rfl⟩
  · refine ⟨(List.range r).reverse.map fun i : Nat => (i : Int), ?_⟩
    rw [axesUpTo_eq hr, List.map_map]
    rfl

lemma coded_permutedAxes (r : Nat) (is : List Int) :
    FailsOnly Error.Coded (permutedAxes (.ofNat r) (is.map .int)) := by
  refine failsOnly_mapM fun v hv => ?_
  obtain ⟨i, -, rfl⟩ := List.mem_map.mp hv
  have hread : Quantity.ofAttribute (.int i) = .ok (.number (.whole i)) := rfl
  have hreaches : (Quantity.number (.whole i)).reaches (.ofNat r) = .ok (decide (r ≤ i)) :=
    Quantity.reaches_whole i r
  simp [hread, Quantity.isNegative_whole, hreaches]

/-- The axes of a permutation that is not refused are places of axes. -/
lemma permutedAxes_mem {axes : List Quantity} {a : Quantity}
    (h : permutedAxes (.ofNat r) (is.map .int) = .ok axes) (ha : a ∈ axes) :
    ∃ i : Int, a = .number (.whole i) ∧ 0 ≤ i ∧ i < r := by
  obtain ⟨j, hj⟩ := List.getElem?_of_mem ha
  obtain ⟨v, hv, hread⟩ := forall₂_getElem? (Except.mapM_eq_ok h) hj
  obtain ⟨i, -, rfl⟩ := List.mem_map.mp (List.mem_of_getElem? hv)
  have hint : Quantity.ofAttribute (.int i) = .ok (.number (.whole i)) := rfl
  have hreaches : (Quantity.number (.whole i)).reaches (.ofNat r) = .ok (decide (r ≤ i)) :=
    Quantity.reaches_whole i r
  rw [hint, Except.ok_bind, Quantity.isNegative_whole, hreaches, Except.ok_bind,
    Except.ok_bind] at hread
  split at hread
  · cases hread
  · next hin =>
    simp only [Bool.or_eq_true, decide_eq_true_eq] at hin
    exact ⟨i, (Except.ok.inj hread).symm, by omega, by omega⟩

lemma coded_transpose (hn : ¬ n.Malformed) (hop : n.operator = .transpose) :
    FailsOnly Error.Coded (transpose n) := by
  unfold transpose
  by_cases harity : n.inputs.length ≠ 1 ∨ n.outputs.length ≠ 1
  · simp [harity]
  obtain ⟨x, hmem, hx⟩ := Node.exists_input_of_lt (n := n) (i := 0) (by omega)
  have hproper : x.type.Proper := Node.proper_of_mem hn (by rw [hop]; rfl) hmem
  obtain ⟨r, hcount, hr⟩ := hproper.exists_axes
  obtain ⟨is, his⟩ := exists_permutation hn hop hcount
  simp only [harity, if_false, hx, Except.ok_bind, hr.rank, his]
  split
  · simp
  simp only [failsOnly_bind, coded_permutedAxes, true_and]
  intro axes haxes
  cases hdims : x.type.dims? with
  | none => simp
  | some sizes =>
    have hplaces : ∀ a ∈ axes, ∃ s, (do Place.get sizes (← a.index)) = .ok s := by
      intro a ha
      obtain ⟨i, rfl, hi⟩ := permutedAxes_mem haxes ha
      have hlength := hr.length sizes hdims
      obtain ⟨s, -, hs⟩ := Place.exists_get sizes i (by omega)
      exact ⟨s, hs⟩
    obtain ⟨picked, hpicked⟩ := Except.exists_mapM_eq_ok hplaces
    simp [hpicked]

/-- The axis of a join is a place of an axis, or refused. -/
lemma joinAxis_cases (hn : ¬ n.Malformed) (hop : n.operator = .concat) (r : Nat) :
    joinAxis n (.ofNat r) = .error (.typing .concatAxis) ∨
      ∃ i : Int, joinAxis n (.ofNat r) = .ok (.number (.whole i)) ∧ 0 ≤ i ∧ i < r := by
  obtain ⟨a, (ha : n.quantity "axis" 0 = _)⟩ :=
    Node.exists_quantity hn "axis" (by simp [hop, Operator.signature]) 0
  unfold joinAxis
  rw [ha, Except.ok_bind, Quantity.normalize_ofNat, Except.ok_bind]
  generalize (if a < 0 then a + (r : Int) else a) = i
  have hreaches : (Quantity.number (.whole i)).reaches (.ofNat r) = .ok (decide (r ≤ i)) :=
    Quantity.reaches_whole i r
  rw [Quantity.isNegative_whole, hreaches, Except.ok_bind, Except.ok_bind]
  split
  · exact .inl rfl
  · next hin =>
    simp only [Bool.or_eq_true, decide_eq_true_eq] at hin
    exact .inr ⟨i, rfl, by omega, by omega⟩

lemma exists_joinedShape {i : Int} {shapes : List (List Size)} (hi : 0 ≤ i ∧ i < r)
    (hshapes : ∀ sizes ∈ shapes, ∃ ds : List Int, sizes = ds.map .whole ∧ ds.length = r) :
    ∃ joined, joinedShape (.number (.whole i)) shapes = .ok joined := by
  have hget : ∀ sizes ∈ shapes, ∃ s, Place.get sizes i = .ok s ∧ ∃ k : Int, s = .whole k := by
    intro sizes hsizes
    obtain ⟨ds, rfl, hlength⟩ := hshapes sizes hsizes
    obtain ⟨k, hget⟩ := Place.exists_size ds i (by omega)
    exact ⟨_, hget, k, rfl⟩
  obtain ⟨sizes, hsizes, hwhole⟩ := exists_mapM_forall hget
  obtain ⟨ks, rfl⟩ := exists_map_whole hwhole
  obtain ⟨total, htotal⟩ := Size.exists_sum ks
  have hindex : (Quantity.number (.whole i)).index = .ok i := rfl
  exact ⟨_, by simp only [joinedShape, hindex, hsizes, htotal, Except.ok_bind]; rfl⟩

lemma exists_sizeCounts {counts : List Size} (h : ∀ v ∈ vs, v.type.Proper)
    (hcounts : sizeCounts? vs = some counts) : ∃ ks : List Int, counts = ks.map .whole := by
  have htypes := sizeCounts?_eq_some.mp hcounts
  refine exists_map_whole fun s hs => ?_
  have hmem : ValueType.shape s ∈ vs.map Value.type := htypes ▸ List.mem_map_of_mem hs
  obtain ⟨v, hv, htype⟩ := List.mem_map.mp hmem
  have hdims : v.type.dims? = some [s] := by
    rw [htype]
    rfl
  obtain ⟨ds, hds, -, -⟩ := (h v hv).exists_sizes hdims
  cases ds with
  | nil => simp at hds
  | cons k ds => exact ⟨k, (List.cons_eq_cons.mp hds).1⟩

lemma coded_concat (hn : ¬ n.Malformed) (hop : n.operator = .concat) :
    FailsOnly Error.Coded (concat n) := by
  have hproper : ∀ v ∈ n.inputs, v.type.Proper := fun v hv =>
    Node.proper_of_mem hn (by rw [hop]; rfl) hv
  unfold concat
  by_cases harity : n.outputs.length ≠ 1 ∨ n.inputs = []
  · simp [harity]
  cases hcounts : sizeCounts? n.inputs with
  | some counts =>
    obtain ⟨ks, rfl⟩ := exists_sizeCounts hproper hcounts
    obtain ⟨total, htotal⟩ := Size.exists_sum ks
    simp [harity, htotal]
  | none =>
    have hlength : 0 < n.inputs.length := List.length_pos_iff.mpr fun h => harity (.inr h)
    obtain ⟨x, hmem, hx⟩ := Node.exists_input_of_lt (n := n) (i := 0) hlength
    obtain ⟨r, -, hr⟩ := (hproper x hmem).exists_axes
    simp only [harity, if_false, hx, Except.ok_bind, hr.rank]
    split
    · simp
    next hranks =>
    rcases joinAxis_cases hn hop r with hrefused | ⟨i, haxis, hi⟩
    · simp [hrefused]
    rw [haxis, Except.ok_bind]
    split
    · next shapes hshapes =>
      have hsame : ∀ sizes ∈ shapes, ∃ ds : List Int, sizes = ds.map .whole ∧ ds.length = r := by
        intro sizes hsizes
        obtain ⟨v, hv, hdims⟩ := exists_of_mem_mapM hshapes hsizes
        obtain ⟨ds, rfl, hsized, -⟩ := (hproper v hv).exists_sizes hdims
        have hequal : v.type.rank.equals (.ofNat r) = true := by
          by_contra hne
          exact hranks (List.any_eq_true.mpr ⟨v, hv, by simpa using hne⟩)
        rw [hsized.rank, Size.equals_ofNat, decide_eq_true_eq] at hequal
        exact ⟨ds, rfl, hequal⟩
      obtain ⟨joined, hjoined⟩ := exists_joinedShape hi hsame
      simp [hjoined]
    · simp

lemma coded_gather (hn : ¬ n.Malformed) (hop : n.operator = .gather) :
    FailsOnly Error.Coded (gather n) := by
  have hrule : (rule? n.operator).isSome := by rw [hop]; rfl
  obtain ⟨x, hxmem, hx⟩ := Node.exists_input (i := 0) hn (by simp [hop, Operator.required])
  obtain ⟨v, hvmem, hv⟩ := Node.exists_input (i := 1) hn (by simp [hop, Operator.required])
  have hproper := Node.proper_of_mem hn hrule hvmem
  obtain ⟨q, -, hq⟩ := hproper.exists_axes
  by_cases hshape : ∃ rank, x.type = .shape rank
  · obtain ⟨rank, hrank⟩ := hshape
    simp only [gather, hx, hv, Except.ok_bind, hrank]
    split
    · simp
    · cases hdims : v.type.dims? with
      | none =>
        have hempty : Size.product [] = .ok 1 := rfl
        simp [hempty]
      | some sizes =>
        obtain ⟨ds, rfl, -, hds⟩ := hproper.exists_sizes hdims
        simp [Size.product_of_signed hds.words]
  · obtain ⟨r, -, hr⟩ := (Node.proper_of_mem hn hrule hxmem).exists_axes
    obtain ⟨a, (ha : n.quantity "axis" 0 = _)⟩ :=
      Node.exists_quantity hn "axis" (by simp [hop, Operator.signature]) 0
    have hadd : ∀ k : Int, (Quantity.number (.whole k)).add 1 = .ok (.number (.whole (k + 1))) :=
      fun _ => rfl
    have hindex : ∀ k : Int, (Quantity.number (.whole k)).index = .ok k := fun _ => rfl
    have hsum : Size.add (.ofNat r) (.ofNat q) = .ok (.ofNat (r + q)) := rfl
    have hrank : Size.sub (.ofNat (r + q)) 1 = .ok (.whole ((r + q : Nat) - 1)) := rfl
    rw [gather_of_ne_shape hx hv fun rank hrank => hshape ⟨rank, hrank⟩]
    simp only [ha, Except.ok_bind, hr.rank, hq.rank, Quantity.normalize_ofNat, hsum, hrank]
    split <;> simp [replacedAt, hindex, hadd]

/-! ## Products -/

lemma coded_matMul (h : ∀ v ∈ n.inputs, v.type.Proper) : FailsOnly Error.Coded (matMul n) := by
  unfold matMul
  split
  swap
  · simp
  next a b _ hinputs _ =>
  obtain ⟨r, -, hr⟩ := (h a (by simp [hinputs])).exists_axes
  obtain ⟨q, -, hq⟩ := (h b (by simp [hinputs])).exists_axes
  have hr2 : (Size.ofNat r).less 2 = .ok (decide (r < 2)) := Size.less_ofNat r 2
  have hq2 : (Size.ofNat q).less 2 = .ok (decide (q < 2)) := Size.less_ofNat q 2
  simp only [failsOnly_bind, ElementType.coded_promote, true_and, hr.rank, hq.rank, productRank_eq,
    Except.ok.injEq, forall_eq', failsOnly_ok]
  intro t _
  split
  swap
  · simp
  next sa sb hsa hsb =>
  obtain ⟨ds, rfl, -, -⟩ := (h a (by simp [hinputs])).exists_sizes hsa
  obtain ⟨es, rfl, -, -⟩ := (h b (by simp [hinputs])).exists_sizes hsb
  have hds : ds.length = r := by simpa using hr.length _ hsa
  have hes : es.length = q := by simpa using hq.length _ hsb
  rw [hr2, hq2, Except.ok_bind, Except.ok_bind]
  split
  · simp
  next htwo =>
  simp only [Bool.or_eq_true, decide_eq_true_eq] at htwo
  obtain ⟨inner, hinner⟩ := Place.exists_size ds (-1) (by omega)
  obtain ⟨rows, hrows⟩ := Place.exists_size ds (-2) (by omega)
  obtain ⟨inner', hinner'⟩ := Place.exists_size es (-2) (by omega)
  obtain ⟨columns, hcolumns⟩ := Place.exists_size es (-1) (by omega)
  simp [before_map_whole, coded_broadcastDims, hinner, hrows, hinner', hcolumns]

lemma coded_linear (hn : ¬ n.Malformed) (hop : n.operator = .linear) :
    FailsOnly Error.Coded (linear n) := by
  have hrule : (rule? n.operator).isSome := by rw [hop]; rfl
  obtain ⟨x, -, hx⟩ := Node.exists_input (i := 0) hn (by simp [hop, Operator.required])
  obtain ⟨w, hmem, hw⟩ := Node.exists_input (i := 1) hn (by simp [hop, Operator.required])
  obtain ⟨q, -, hq⟩ := (Node.proper_of_mem hn hrule hmem).exists_axes
  have htwo : (Size.ofNat q).equals 2 = decide (q = 2) := Size.equals_ofNat q 2
  simp only [linear, hx, hw, Except.ok_bind, hq.rank, htwo]
  split
  · simp
  next hrank =>
  split
  · next sx sw _ hsw =>
    have hlength := hq.length sw hsw
    have htwo : q = 2 := by simpa using hrank
    obtain ⟨columns, -, hcolumns⟩ := Place.exists_get sw 1 (by omega)
    simp [hcolumns]
  · simp

lemma coded_gemm (hn : ¬ n.Defective) (hop : n.operator = .gemm) :
    FailsOnly Error.Coded (gemm n) := by
  have hform : ¬ n.Malformed := mt .malformed hn
  have hrule : (rule? n.operator).isSome := by rw [hop]; rfl
  obtain ⟨a, hamem, ha⟩ := Node.exists_input (i := 0) hform (by simp [hop, Operator.required])
  obtain ⟨b, hbmem, hb⟩ := Node.exists_input (i := 1) hform (by simp [hop, Operator.required])
  obtain ⟨turned, hturned⟩ :=
    Node.exists_flag hform "transA" (by simp [hop, Operator.signature]) false
  obtain ⟨turned', hturned'⟩ :=
    Node.exists_flag hform "transB" (by simp [hop, Operator.signature]) false
  simp only [gemm, ha, hb, Except.ok_bind, hturned, hturned']
  split
  · next sa sb hsa hsb =>
    obtain ⟨ds, rfl, hds, -⟩ := (Node.proper_of_mem hform hrule hamem).exists_sizes hsa
    obtain ⟨es, rfl, hes, -⟩ := (Node.proper_of_mem hform hrule hbmem).exists_sizes hsb
    have hlong : ¬ (ds.length ≤ (if turned then 1 else 0) ∨ es.length ≤ if turned' then 0 else 1) :=
      fun hshort => hn (.product hop ha hb hds hes hturned hturned' hshort)
    obtain ⟨hrow, hcolumn⟩ := not_or.mp hlong
    obtain ⟨rows, hrows⟩ := Place.exists_size ds (if turned then 1 else 0) (by
      cases turned <;> simp at hrow ⊢ <;> omega)
    obtain ⟨columns, hcolumns⟩ := Place.exists_size es (if turned' then 0 else 1) (by
      cases turned' <;> simp at hcolumn ⊢ <;> omega)
    simp [hrows, hcolumns]
  · simp

lemma exists_reducedPlaces (hn : ¬ n.Defective) (hop : n.operator ∈ Operator.reductions)
    (hr : r < 2 ^ 63) : ∃ places, reducedPlaces n (.ofNat r) = .ok places := by
  have hform : ¬ n.Malformed := mt .malformed hn
  unfold reducedPlaces
  by_cases hmax : n.operator = .argMax
  · obtain ⟨i, (hi : n.quantity "axis" 0 = _)⟩ :=
      Node.exists_quantity hform "axis" (by simp [hmax, Operator.signature]) 0
    rw [if_pos hmax, greatestAxis, hi, Except.ok_bind, Quantity.isNegative_whole, Except.ok_bind]
    split
    · exact ⟨_, rfl⟩
    · exact ⟨_, rfl⟩
  · have hkeys : ∀ o ∈ Operator.reductions, o ≠ .argMax →
        1 ∈ o.consulted ∧ ("axes", Attribute.Kind.integers) ∈ o.signature := by
      decide
    obtain ⟨hplace, hkey⟩ := hkeys n.operator hop hmax
    rw [if_neg hmax]
    rcases Node.integers?_cases hn 1 "axes" hplace hkey with hnone | ⟨is, -, hsome⟩
    · exact ⟨_, by rw [hnone, Except.ok_bind, axesUpTo_eq hr]; rfl⟩
    · rw [hsome, Except.ok_bind]
      split
      · exact exists_distinctPlaces r _
      · exact ⟨_, by rw [axesUpTo_eq hr]; rfl⟩

lemma coded_reduce (hn : ¬ n.Defective) (hop : n.operator ∈ Operator.reductions) :
    FailsOnly Error.Coded (reduce n) := by
  have hform : ¬ n.Malformed := mt .malformed hn
  have hkeys : ∀ o ∈ Operator.reductions,
      0 < o.required ∧ ("keepdims", Attribute.Kind.plain) ∈ o.signature := by
    decide
  obtain ⟨hrequired, hkey⟩ := hkeys n.operator hop
  obtain ⟨x, hmem, hx⟩ := Node.exists_input hform hrequired
  obtain ⟨keep, hkeep⟩ := Node.exists_flag hform "keepdims" hkey true
  have hrule : (rule? n.operator).isSome := by rw [rule?_reductions hop]; rfl
  obtain ⟨r, hcount, hr⟩ := (Node.proper_of_mem hform hrule hmem).exists_axes
  obtain ⟨places, hplaces⟩ := exists_reducedPlaces hn hop hcount
  have hsub : ∀ k, Size.sub (.ofNat r) (.ofNat k) = .ok (.whole (r - k)) := fun _ => rfl
  simp [reduce, hx, hr.rank, hplaces, hkeep, hsub]

lemma coded_globalPool (hn : ¬ n.Malformed)
    (hop : n.operator = .globalAveragePool ∨ n.operator = .globalMaxPool) :
    FailsOnly Error.Coded (globalPool n) := by
  have hrequired : 0 < n.operator.required := by
    rcases hop with hop | hop <;> simp [hop, Operator.required]
  obtain ⟨x, -, hx⟩ := Node.exists_input hn hrequired
  simp [globalPool, hx]

end TensorGraph
