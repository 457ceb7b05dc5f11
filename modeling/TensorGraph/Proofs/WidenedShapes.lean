import TensorGraph.Proofs.ReshapedCounts

/-!
# Shapes that get further axes

Where axes of size one are added at places that are known only when the graph runs, the shape of
the graph boundary says what comes out, and the node becomes one that reshapes to it. Reshaping
reads a zero of the shape as the size of its operand at the same place, while an empty axis has
moved on by the axes added before it. The two nodes are therefore typed alike if and only if zeros
are read as zeros (`Node.widensAtRun_resultType_iff`).
-/

namespace TensorGraph

open Typing ValueType

/-- The places of axes among `q`. A negative axis counts from the end. -/
def axisPlaces (q : Nat) (axes : List Int) : List Int :=
  axes.map fun a => if a < 0 then a + q else a

/-- The axes are places among `q`, and no two of them are the same place. -/
structure DistinctAxes (q : Nat) (axes : List Int) : Prop where
  range : ∀ a ∈ axes, -q ≤ a ∧ a < q
  nodup : (axisPlaces q axes).Nodup

/-- Read from the place `i` on, the second list has `one` at the given places, and the entries of
the first one in order at the others. All given places are among its own. -/
inductive Widened {α : Type} (one : α) (places : List Int) : Nat → List α → List α → Prop where
  | nil {i : Nat} (hplaces : ∀ p ∈ places, p < i) : Widened one places i [] []
  | one {i : Nat} {s d : List α} (hi : (i : Int) ∈ places) (h : Widened one places (i + 1) s d) :
    Widened one places i s (one :: d)
  | keep {i : Nat} {k : α} {s d : List α} (hi : (i : Int) ∉ places)
    (h : Widened one places (i + 1) s d) : Widened one places i (k :: s) (k :: d)

namespace Node

/-- The node adds axes to `x`, which has sizes `s`, at places that are known only when the graph
runs. It writes the boundary `y`, which is declared with sizes `d`: those of `x`, and one along the
axes. -/
structure WidensAtRun (n : Node) (x y : Value) (s axes d : List Int) : Prop where
  atRun : n.unsqueezesAtRun = true
  data : n.input 0 = .ok x
  sizes : x.type.Sized s
  nonneg : ∀ k ∈ s, 0 ≤ k
  distinct : DistinctAxes (s.length + axes.length) axes
  declared : y.type.dims? = some (d.map .whole)
  widened : Widened 1 (axisPlaces (s.length + axes.length) axes) 0 s d

/-- The node with the axes for its second operand. -/
def withAxes (n : Node) (axes : Value) : Node := { n with inputs := n.inputs.set 1 axes }

/-- Reshaping an operand of sizes `s` to `d` leaves the zeros of `d` as they are: zeros are
allowed, or `s` has a zero or no size at the same place. -/
def ReadsZeros (n : Node) (s d : List Int) : Prop :=
  ∀ i : Nat, d[i]? = some 0 → ∃ allowed, n.flag "allowzero" false = .ok allowed ∧
    (allowed = true ∨ (s[i]?).getD 0 = 0)

end Node

variable {α β : Type} {one k : α} {places ps axes s d : List Int} {us vs : List α} {i q : Nat}

namespace Widened

lemma map (f : α → β) (h : Widened one places i us vs) :
    Widened (f one) places i (us.map f) (vs.map f) := by
  induction h with
  | nil hplaces => exact .nil hplaces
  | one hi _ ih => exact .one hi ih
  | keep hi _ ih => exact .keep hi ih

lemma mem (h : Widened one places i us vs) (hk : k ∈ vs) : k = one ∨ k ∈ us := by
  induction h with
  | nil => cases hk
  | one _ _ ih =>
    rcases List.mem_cons.mp hk with hk | hk
    · exact .inl hk
    · exact ih hk
  | keep _ _ ih =>
    rcases List.mem_cons.mp hk with rfl | hk
    · exact .inr List.mem_cons_self
    · exact (ih hk).imp_right (List.mem_cons_of_mem _)

end Widened

/-- What is inserted after the first entry leaves that where it is. -/
lemma foldl_insert_cons (hps : ∀ p ∈ ps, (i : Int) < p) :
    ps.foldl (fun us p => Place.insert us (p - i) one) (k :: us) =
      k :: ps.foldl (fun us p => Place.insert us (p - (i + 1 : Nat)) one) us := by
  induction ps generalizing us with
  | nil => rfl
  | cons p ps ih =>
    have hp : (i : Int) < p := hps p List.mem_cons_self
    have hstep : Place.insert (k :: us) (p - i) one =
        k :: Place.insert us (p - (i + 1 : Nat)) one := by
      have hplace : (p - (i : Int)).toNat = (p - ((i + 1 : Nat) : Int)).toNat + 1 := by omega
      simp only [Place.insert, Place.before, Place.onward, Place.clamp, List.length_cons, hplace]
      rw [if_neg (by omega), if_neg (by omega), Nat.add_min_add_right, List.take_succ_cons,
        List.drop_succ_cons, List.cons_append]
    rw [List.foldl_cons, List.foldl_cons, hstep, ih fun p hp => hps p (List.mem_cons_of_mem _ hp)]

/-- Of sorted places from `i` on, a place `i` is the first; the others are those after it. -/
lemma least_place {p : Int} (hps : (p :: ps).Pairwise (· < ·))
    (hmem : ∀ q, q ∈ p :: ps ↔ q ∈ places ∧ (i : Int) ≤ q) (hi : (i : Int) ∈ places) :
    p = i ∧ ∀ q, q ∈ ps ↔ q ∈ places ∧ ((i + 1 : Nat) : Int) ≤ q := by
  rw [List.pairwise_cons] at hps
  obtain rfl : p = i := by
    have hle := ((hmem p).mp List.mem_cons_self).2
    rcases List.mem_cons.mp ((hmem i).mpr ⟨hi, Int.le_refl _⟩) with heq | hlater
    · exact heq.symm
    · have hlt := hps.1 _ hlater
      omega
  refine ⟨rfl, fun q => ⟨fun hq => ?_, ?_⟩⟩
  · have hlt := hps.1 q hq
    exact ⟨((hmem q).mp (List.mem_cons_of_mem _ hq)).1, by omega⟩
  · rintro ⟨hq, hlt⟩
    rcases List.mem_cons.mp ((hmem q).mpr ⟨hq, by omega⟩) with rfl | hq
    · omega
    · exact hq

/-- If `i` is no place, then those from `i` on are those after `i`. -/
lemma later_places (hmem : ∀ p, p ∈ ps ↔ p ∈ places ∧ (i : Int) ≤ p) (hi : (i : Int) ∉ places)
    (p : Int) : p ∈ ps ↔ p ∈ places ∧ ((i + 1 : Nat) : Int) ≤ p := by
  rw [hmem]
  refine and_congr_right fun hp => ?_
  have hne : p ≠ i := ne_of_mem_of_not_mem hp hi
  omega

/-- Ones inserted at the places one after the other, from the first one on, give the widened list.
-/
lemma Widened.foldl_insert (h : Widened one places i us vs) (hps : ps.Pairwise (· < ·))
    (hmem : ∀ p, p ∈ ps ↔ p ∈ places ∧ (i : Int) ≤ p) :
    ps.foldl (fun us p => Place.insert us (p - i) one) us = vs := by
  induction h generalizing ps with
  | @nil i hplaces =>
    have hnil : ps = [] := by
      refine List.eq_nil_iff_forall_not_mem.mpr fun p hp => ?_
      obtain ⟨hp, hle⟩ := (hmem p).mp hp
      have hlt := hplaces p hp
      omega
    rw [hnil]
    rfl
  | @one i us vs hi _ ih =>
    cases ps with
    | nil => exact absurd ((hmem i).mpr ⟨hi, Int.le_refl _⟩) List.not_mem_nil
    | cons p ps =>
      obtain ⟨rfl, hlater⟩ := least_place hps hmem hi
      rw [List.pairwise_cons] at hps
      have hfirst : Place.insert us ((i : Int) - i) one = one :: us := by
        rw [Int.sub_self]
        rfl
      rw [List.foldl_cons, hfirst, foldl_insert_cons hps.1, ih hps.2 hlater]
  | @keep i k us vs hi _ ih =>
    have hlater := later_places hmem hi
    have hafter : ∀ p ∈ ps, (i : Int) < p := by
      intro p hp
      have hle := ((hlater p).mp hp).2
      omega
    rw [foldl_insert_cons hafter, ih hps hlater]

lemma DistinctAxes.place_nonneg (h : DistinctAxes q axes) : ∀ p ∈ axisPlaces q axes, 0 ≤ p := by
  intro p hp
  obtain ⟨a, ha, rfl⟩ := List.mem_map.mp hp
  have hrange := h.range a ha
  split <;> omega

/-- Ones inserted at the sorted places of the axes give the widened list. -/
lemma Widened.mergeSort (h : Widened one (axisPlaces q axes) 0 us vs) (hd : DistinctAxes q axes) :
    (axisPlaces q axes).mergeSort.foldl (fun us p => Place.insert us p one) us = vs := by
  have hsorted : (axisPlaces q axes).mergeSort.Pairwise (· ≤ ·) := by
    refine (List.pairwise_mergeSort (fun a b c => ?_) (fun a b => ?_) _).imp of_decide_eq_true
    · simp only [decide_eq_true_eq]
      exact Int.le_trans
    · simp only [Bool.or_eq_true, decide_eq_true_eq]
      exact Int.le_total a b
  have hnodup : (axisPlaces q axes).mergeSort.Nodup :=
    (List.mergeSort_perm _ _).nodup_iff.mpr hd.nodup
  have hstrict : (axisPlaces q axes).mergeSort.Pairwise (· < ·) :=
    (hsorted.and hnodup).imp fun ⟨hle, hne⟩ => by omega
  have hfold := h.foldl_insert hstrict fun p => ?_
  · simpa using hfold
  · rw [List.mem_mergeSort]
    exact ⟨fun hp => ⟨hp, hd.place_nonneg p hp⟩, And.left⟩

/-! ## Typing -/

variable {n m : Node} {x y w : Value} {a : Literal} {e : ElementType} {t : ValueType}
  {allowed : Bool}

lemma insertionPlace_eq_ok_iff {p b : Int} (hp : 0 ≤ p) :
    insertionPlace (.whole p) = .ok b ↔ p < 2 ^ 63 ∧ b = p := by
  have hsigned : Size.isSigned p = decide (p < 2 ^ 63) := by
    rw [Size.isSigned, decide_eq_decide]
    omega
  simp only [insertionPlace, Size.index, Except.ok_bind, hsigned, decide_eq_true_eq]
  split
  · next hlt => rw [Except.pure_eq_ok, eq_comm, and_iff_right hlt]
  · next hge => exact iff_of_false (by simp [throw, throwThe, MonadExceptOf.throw]) (by tauto)

lemma normalizeAxis_ofNat (a : Int) :
    normalizeAxis (.ofNat q) a = .ok (.whole (if a < 0 then a + q else a)) := by
  unfold normalizeAxis
  by_cases ha : a < 0
  · rw [if_pos ha, if_pos ha]
    rfl
  · rw [if_neg ha, if_neg ha]

/-- The places of axes are computed where all of them fit a signed word. -/
lemma mapM_insertionPlace_iff {found : List Int} (hd : ∀ p ∈ axisPlaces q axes, 0 ≤ p) :
    (axes.mapM fun a => do insertionPlace (← normalizeAxis (.ofNat q) a)) = .ok found ↔
      (∀ p ∈ axisPlaces q axes, p < 2 ^ 63) ∧ found = axisPlaces q axes := by
  have hmap : (axes.mapM fun a => do insertionPlace (← normalizeAxis (.ofNat q) a)) =
      (axisPlaces q axes).mapM fun p => insertionPlace (.whole p) := by
    simp only [normalizeAxis_ofNat, Except.ok_bind, axisPlaces, List.mapM_map]
    rfl
  have hfound : (∀ p ∈ axisPlaces q axes, p < 2 ^ 63) →
      ((axisPlaces q axes).mapM fun p => insertionPlace (.whole p)) = .ok (axisPlaces q axes) := by
    intro hall
    refine (Except.mapM_eq_ok_map fun p hp => ?_).trans (congrArg _ (List.map_id' _))
    exact (insertionPlace_eq_ok_iff (hd p hp)).mpr ⟨hall p hp, rfl⟩
  rw [hmap]
  constructor
  · intro h
    have hall : ∀ p ∈ axisPlaces q axes, p < 2 ^ 63 := by
      intro p hp
      obtain ⟨b, -, hb⟩ := forall₂_exists_of_mem (Except.mapM_eq_ok h) hp
      exact ((insertionPlace_eq_ok_iff (hd p hp)).mp hb).1
    exact ⟨hall, Except.ok.inj (h.symm.trans (hfound hall))⟩
  · rintro ⟨hall, rfl⟩
    exact hfound hall

/-- Axes of size one are added to an operand of known sizes. -/
lemma unsqueezeAt_eq_ok_iff {sizes widened : List Size} (hr : t.rank = .ofNat sizes.length)
    (hdims : t.dims? = some sizes) (hd : DistinctAxes (sizes.length + axes.length) axes)
    (h : Widened 1 (axisPlaces (sizes.length + axes.length) axes) 0 sizes widened)
    {u : ValueType} : unsqueezeAt t axes = .ok u ↔
      (∀ p ∈ axisPlaces (sizes.length + axes.length) axes, p < 2 ^ 63) ∧
        u = .ofRank t.element (.ofNat (sizes.length + axes.length)) (some widened) := by
  simp only [unsqueezeAt, rank_add_length hr, Except.ok_bind, hdims, Except.bind_eq_ok,
    Except.pure_eq_ok, mapM_insertionPlace_iff hd.place_nonneg]
  constructor
  · rintro ⟨found, ⟨hall, rfl⟩, rfl⟩
    rw [h.mergeSort hd]
    exact ⟨hall, rfl⟩
  · rintro ⟨hall, rfl⟩
    exact ⟨_, ⟨hall, rfl⟩, by rw [h.mergeSort hd]⟩

lemma Widened.length_eq (h : Widened one (axisPlaces q axes) 0 us vs) (hd : DistinctAxes q axes) :
    vs.length = us.length + axes.length := by
  rw [← h.mergeSort hd, length_foldl_insert, List.length_mergeSort, axisPlaces, List.length_map]

/-- A target is kept as it is if and only if its zeros are read as zeros. -/
lemma askedSizes_eq_self_iff : askedSizes allowed s d = d ↔
    ∀ i : Nat, d[i]? = some 0 → allowed = true ∨ (s[i]?).getD 0 = 0 := by
  have hget : ∀ i : Nat, (askedSizes allowed s d)[i]? =
      d[i]?.map fun k => if k = 0 ∧ allowed = false then (s[i]?).getD 0 else k := by
    intro i
    rw [askedSizes, List.getElem?_map, List.getElem?_zipIdx, Option.map_map]
    simp [Function.comp_def]
  rw [List.ext_getElem?_iff]
  refine forall_congr' fun i => ?_
  rw [hget]
  cases d[i]? with
  | none => simp
  | some k =>
    rw [Option.map_some, Option.some.injEq, Option.some.injEq]
    split
    · next h => simp [h.1, h.2]
    · next h =>
      refine iff_of_true rfl fun hk => .inl ?_
      simpa [hk] using h

namespace Node

/-- The node `m` reshapes `x` to the sizes `d`, with the further operands and outputs of `n`. -/
structure ReshapesInPlaceOf (m n : Node) (x : Value) (d : List Int) : Prop where
  operator : m.operator = .reshape
  inputs : m.inputs = x :: n.shapeOperand d :: n.inputs.drop 2
  outputs : ∃ y, m.outputs = y :: n.outputs.drop 1
  attributes : m.attributes = n.attributes

lemma WidensAtRun.reshapesInPlaceOf (h : n.WidensAtRun x y s axes d)
    (hm : n.reshapeTo? y = .ok (some m)) : m.ReshapesInPlaceOf n x d := by
  obtain ⟨x', xs, o, os, target, hin, hout, ⟨sizes, hsizes, hwords⟩, rfl⟩ := reshapeTo?_ok hm
  obtain rfl : x' = x := Except.ok.inj ((input_zero_eq_ok.mpr ⟨xs, hin⟩).symm.trans h.data)
  obtain rfl : sizes = d.map .whole := Option.some.inj (hsizes.symm.trans h.declared)
  obtain rfl := Size.mapM_toWord_whole hwords
  exact ⟨rfl, rfl, ⟨y, by rw [hout]; rfl⟩, rfl⟩

lemma WidensAtRun.notMem_inferred (h : n.WidensAtRun x y s axes d) : -1 ∉ d := by
  intro hmem
  rcases h.widened.mem hmem with hone | hmem
  · cases hone
  · have hle := h.nonneg (-1) hmem
    omega

/-- The reshaping is typed if it has two operands and one output, and its zeros can be read. -/
lemma ReshapesInPlaceOf.reshape_eq_ok_iff (hm : m.ReshapesInPlaceOf n x d)
    (hin : 2 ≤ n.inputs.length) (hout : 1 ≤ n.outputs.length) (hs : x.type.Sized s)
    (hnonneg : ∀ k ∈ s, 0 ≤ k) (hd : -1 ∉ d) : reshape m = .ok t ↔
      n.inputs.length = 2 ∧ n.outputs.length = 1 ∧
        ∃ allowed, (0 ∈ d → n.flag "allowzero" false = .ok allowed) ∧ t = .ofRank x.type.element
          (.ofNat d.length) (some ((askedSizes allowed s d).map .whole)) := by
  obtain ⟨y, houtputs⟩ := hm.outputs
  have harity : m.HasReshapeArity ↔ n.inputs.length = 2 ∧ n.outputs.length = 1 := by
    simp only [HasReshapeArity, hm.inputs, houtputs, List.length_cons, List.length_drop]
    omega
  have hx : m.input 0 = .ok x := by
    rw [input_eq_ok, hm.inputs]
    rfl
  have htarget : m.integers? 1 "shape" = .ok (some d) := by
    rw [integers?, hm.inputs]
    exact congrArg (Except.map some) (Literal.toInts_vector _ d)
  have hcount : d.count (-1) = 0 := List.count_eq_zero.mpr hd
  have hflag : m.flag "allowzero" false = n.flag "allowzero" false := flag_congr hm.attributes _ _
  have hfill : ∀ allowed, fillInferred (s.map .whole) ((askedSizes allowed s d).map .whole) =
      .ok ((askedSizes allowed s d).map .whole) := by
    intro allowed
    apply fillInferred_of_notMem
    rw [← List.count_eq_zero, count_askedSizes hnonneg, hcount]
  by_cases hright : n.inputs.length = 2 ∧ n.outputs.length = 1
  · rw [reshape_eq_filled hx hs.dims htarget (harity.mpr hright) (by omega), Except.map_eq_ok,
      and_iff_right hright.1, and_iff_right hright.2]
    simp only [Except.bind_eq_ok, keepZeros_eq_ok_iff, hflag]
    constructor
    · rintro ⟨filled, ⟨kept, ⟨allowed, hzero, rfl⟩, hfilled⟩, rfl⟩
      obtain rfl := Except.ok.inj ((hfill allowed).symm.trans hfilled)
      exact ⟨allowed, hzero, rfl⟩
    · rintro ⟨allowed, hzero, rfl⟩
      exact ⟨_, ⟨_, ⟨allowed, hzero, rfl⟩, hfill allowed⟩, rfl⟩
  · refine iff_of_false (fun ht => ?_) fun h => hright ⟨h.1, h.2.1⟩
    have hwrong : m.outputs.length ≠ 1 ∨ m.inputs.length ≠ 1 ∧ m.inputs.length ≠ 2 := by
      rw [← harity] at hright
      unfold HasReshapeArity at hright
      omega
    unfold reshape at ht
    rw [if_pos hwrong] at ht
    cases ht

/-- With the axes known beforehand, the node is typed if their places fit signed words. -/
lemma WidensAtRun.unsqueeze_eq_ok_iff (h : n.WidensAtRun x y s axes d) (hw : w.literal = some a)
    (ha : a.toInts = .ok axes) {o : Value} (ho : n.output 0 = .ok o) :
    unsqueeze (n.withAxes w) = .ok t ↔
      (∀ p ∈ axisPlaces d.length axes, p < 2 ^ 63) ∧
        t = .ofRank x.type.element (.ofNat d.length) (some (d.map .whole)) := by
  obtain ⟨-, x', axes', xs, hin, -⟩ := unsqueezesAtRun_eq_true h.atRun
  have hx : (n.withAxes w).input 0 = .ok x := by
    rw [input_eq_ok, withAxes, List.getElem?_set_ne (by decide)]
    exact input_eq_ok.mp h.data
  have haxes : (n.withAxes w).integers? 1 "axes" = .ok (some axes) := by
    simp only [integers?, withAxes, hin, List.set_cons_succ, List.set_cons_zero,
      List.getElem?_cons_succ, List.getElem?_cons_zero, Option.bind_some, hw, ha]
    rfl
  have ho' : (n.withAxes w).output 0 = .ok o := ho
  unfold unsqueeze
  rw [hx, Except.ok_bind, ho', Except.ok_bind, haxes, Except.ok_bind,
    h.widened.length_eq h.distinct]
  have hwidened : Widened (1 : Size) (axisPlaces (s.length + axes.length) axes) 0 (s.map .whole)
      (d.map .whole) := h.widened.map Size.whole
  have hlength : (s.map Size.whole).length = s.length := List.length_map _
  rw [← hlength] at hwidened ⊢
  exact unsqueezeAt_eq_ok_iff (hlength ▸ h.sizes.rank) h.sizes.dims (hlength ▸ h.distinct) hwidened

lemma readsZeros_iff : n.ReadsZeros s d ↔ ∃ allowed,
    (0 ∈ d → n.flag "allowzero" false = .ok allowed) ∧ askedSizes allowed s d = d := by
  simp only [askedSizes_eq_self_iff]
  constructor
  · intro h
    by_cases hzero : 0 ∈ d
    · obtain ⟨i, hi⟩ := List.mem_iff_getElem?.mp hzero
      obtain ⟨allowed, hflag, -⟩ := h i hi
      refine ⟨allowed, fun _ => hflag, fun j hj => ?_⟩
      obtain ⟨allowed', hflag', hread⟩ := h j hj
      obtain rfl := Except.ok.inj (hflag.symm.trans hflag')
      exact hread
    · exact ⟨true, fun h => absurd h hzero, fun _ _ => .inl rfl⟩
  · rintro ⟨allowed, hflag, hread⟩ i hi
    exact ⟨allowed, hflag (List.mem_of_getElem? hi), hread i hi⟩

/-- The reshaping that takes the place of a node that adds axes at run is typed as that node would
be if its axes were known beforehand, if and only if the node has two operands and one output, the
places of the axes fit signed words, and the zeros of the declared shape are read as zeros. -/
theorem widensAtRun_resultType_iff (h : n.WidensAtRun x y s axes d)
    (hm : n.reshapeTo? y = .ok (some m)) (hw : w.literal = some a) (ha : a.toInts = .ok axes) :
    (∃ t, m.resultType = .ok t ∧ (n.withAxes w).resultType = .ok t) ↔
      n.inputs.length = 2 ∧ n.outputs.length = 1 ∧
        (∀ p ∈ axisPlaces d.length axes, p < 2 ^ 63) ∧ n.ReadsZeros s d := by
  have hplace := h.reshapesInPlaceOf hm
  obtain ⟨hop, x', axes', xs, hin, -⟩ := unsqueezesAtRun_eq_true h.atRun
  obtain ⟨o, ho, -⟩ := Except.bind_eq_ok.mp hm
  obtain ⟨os, hos⟩ := output_zero_eq_ok.mp ho
  obtain ⟨y', houtputs⟩ := hplace.outputs
  have hreshape : m.resultType = reshape m :=
    resultType_eq (by rw [hplace.operator]; rfl) houtputs
  have hunsqueeze : (n.withAxes w).resultType =
      unsqueeze (n.withAxes w) := resultType_eq (by rw [withAxes, hop]; rfl) hos
  have hlength : ∀ allowed, ((askedSizes allowed s d).map Size.whole).length = d.length := by
    intro allowed
    simp [askedSizes]
  simp only [hreshape, hunsqueeze, h.unsqueeze_eq_ok_iff hw ha ho, readsZeros_iff,
    hplace.reshape_eq_ok_iff (by simp [hin]) (by simp [hos]) h.sizes h.nonneg h.notMem_inferred]
  constructor
  · rintro ⟨t, ⟨htwo, hone, allowed, hzero, rfl⟩, hwords, ht⟩
    refine ⟨htwo, hone, hwords, allowed, hzero, ?_⟩
    have hdims := congrArg dims? ht
    rw [dims?_ofRank_of_length (hlength allowed), dims?_ofRank_of_length (List.length_map _),
      Option.some.injEq] at hdims
    exact List.map_injective_iff.mpr (fun _ _ => Size.whole.inj) hdims
  · rintro ⟨htwo, hone, hwords, allowed, hzero, hasked⟩
    exact ⟨_, ⟨htwo, hone, allowed, hzero, rfl⟩, hwords, by rw [hasked]⟩

end Node

/-- An axis is added at run in front of an operand of the given sizes. -/
def widenedAtRun (s : List Int) : Node where
  operator := .unsqueeze
  name := "unsqueeze1"
  inputs := [{ name := "x", type := .tensor .float32 (.ofNat s.length) (some (s.map .whole)) },
    { name := "axes", type := .tensor .int64 1 (some [1]) }]
  outputs := [{ name := "y" }]

/-- The boundary that the node writes, with one along the first axis. -/
def widenedBoundary (s : List Int) : Value where
  name := "y"
  type := .tensor .float32 (.ofNat (s.length + 1)) (some (((1 : Int) :: s).map .whole))

/-- The axis as a literal operand. -/
def firstAxis : Value where
  name := "axes"
  literal := some (.vector (.signed 64) [.int 0])

lemma widensAtRun_widenedAtRun (hs : ∀ k ∈ s, 0 ≤ k) :
    ∃ x, (widenedAtRun s).WidensAtRun x (widenedBoundary s) s [0] (1 :: s) := by
  have hplaces : axisPlaces (s.length + [(0 : Int)].length) [0] = [0] := rfl
  have hlater : ∀ (us : List Int) (i : Nat), Widened (1 : Int) [0] (i + 1) us us := by
    intro us
    induction us with
    | nil => exact fun i => .nil (by simp)
    | cons k us ih => exact fun i => .keep (by simp; omega) (ih (i + 1))
  refine ⟨_, rfl, rfl, ⟨rfl, rfl⟩, hs, ⟨?_, ?_⟩, rfl, ?_⟩
  · simp
  · rw [hplaces]
    exact List.nodup_singleton 0
  · rw [hplaces]
    exact .one (by simp) (hlater s 0)

theorem Node.widensAtRun_resultType_rows : ∃ m t,
    (widenedAtRun [2, 3]).reshapeTo? (widenedBoundary [2, 3]) = .ok (some m) ∧
      m.resultType = .ok t ∧ ((widenedAtRun [2, 3]).withAxes firstAxis).resultType = .ok t := by
  obtain ⟨x, hx⟩ := widensAtRun_widenedAtRun (s := [2, 3]) (by decide)
  obtain ⟨m, hm⟩ : ∃ m, (widenedAtRun [2, 3]).reshapeTo? (widenedBoundary [2, 3]) = .ok (some m) :=
    ⟨_, rfl⟩
  have hzeros : (widenedAtRun [2, 3]).ReadsZeros [2, 3] [1, 2, 3] :=
    fun i hi => absurd (List.mem_of_getElem? hi) (by decide)
  have haxes := Literal.toInts_vector (.signed 64) [0]
  obtain ⟨t, ht⟩ := (Node.widensAtRun_resultType_iff (w := firstAxis) hx hm rfl haxes).mpr
    ⟨rfl, rfl, by decide, hzeros⟩
  exact ⟨m, t, hm, ht⟩

/-- The empty second axis becomes the third one, and is read as the size of the third axis before.
-/
theorem not_widensAtRun_resultType : ∃ x m,
    (widenedAtRun [2, 0, 3]).WidensAtRun x (widenedBoundary [2, 0, 3]) [2, 0, 3] [0] [1, 2, 0, 3] ∧
      (widenedAtRun [2, 0, 3]).reshapeTo? (widenedBoundary [2, 0, 3]) = .ok (some m) ∧
        ¬ ∃ t, m.resultType = .ok t ∧
          ((widenedAtRun [2, 0, 3]).withAxes firstAxis).resultType = .ok t := by
  obtain ⟨x, hx⟩ := widensAtRun_widenedAtRun (s := [2, 0, 3]) (by decide)
  refine ⟨x, _, hx, rfl, ?_⟩
  rintro ⟨t, hreshape, hunsqueeze⟩
  obtain rfl : .tensor .float32 4 (some [1, 2, 3, 3]) = t := Except.ok.inj hreshape
  have hzero : ((widenedAtRun [2, 0, 3]).withAxes firstAxis).resultType.toOption ≠
      some (.tensor .float32 4 (some [1, 2, 3, 3])) := by decide +kernel
  exact hzero (by rw [hunsqueeze]; rfl)

end TensorGraph
