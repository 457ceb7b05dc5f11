import Mathlib.Algebra.BigOperators.Group.List.Lemmas
import Mathlib.Algebra.BigOperators.Ring.List
import Mathlib.Algebra.Order.BigOperators.GroupWithZero.List
import Mathlib.Algebra.Order.Ring.Int
import TensorGraph.Proofs.Arrays
import TensorGraph.Proofs.Forgetting
import TensorGraph.Proofs.FusedTypes

/-!
# Numbers of elements that are reshaped

Reshaping should keep the number of elements. Typing does not compare the numbers: it takes the
sizes that the target asks for, and the size that is left open is the quotient rounded down. The
number of elements is therefore kept only if the target itself fits it (`Node.keepsCount_iff`).
-/

namespace TensorGraph

open Typing ValueType Binary

/-- The sizes that a literal target asks for: a zero keeps the size at its place, unless zeros are
allowed. -/
def askedSizes (allowed : Bool) (ds target : List Int) : List Int :=
  target.zipIdx.map fun e => if e.1 = 0 ∧ allowed = false then (ds[e.2]?).getD 0 else e.1

/-- The sizes that a literal target asks for, but those that are left open. -/
def namedSizes (allowed : Bool) (ds target : List Int) : List Int :=
  (askedSizes allowed ds target).filter (· ≠ -1)

namespace Node

/-- The node reshapes `x`, whose sizes are known and whose number of elements is a signed word, to a
literal target. -/
structure ReshapesTo (n : Node) (x : Value) (ds target : List Int) : Prop where
  operator : n.operator = .reshape
  data : n.input 0 = .ok x
  sizes : x.type.dims? = some (ds.map .whole)
  nonneg : ∀ d ∈ ds, 0 ≤ d
  small : ds.prod < 2 ^ 63
  target : n.integers? 1 "shape" = .ok (some target)

/-- The node is refused, or its result has known sizes, none of them negative, and as many elements
as there are for the sizes `ds`. -/
def KeepsCount (n : Node) (ds : List Int) : Prop :=
  (∃ e, n.infer = .error (.typing e)) ∨ ∃ t, ∃ es : List Int, n.resultType = .ok t ∧
    t.dims? = some (es.map .whole) ∧ (∀ e ∈ es, 0 ≤ e) ∧ es.prod = ds.prod

/-- The node has one output, and a target beside its operand if it has a second operand. -/
def HasReshapeArity (n : Node) : Prop :=
  n.outputs.length = 1 ∧ (n.inputs.length = 1 ∨ n.inputs.length = 2)

/-- The target fits the number of elements. -/
inductive FitsCount (n : Node) (ds target : List Int) : Prop where
  /-- All sizes are given. -/
  | closed {allowed : Bool} (hzero : 0 ∈ target → n.flag "allowzero" false = .ok allowed)
    (hclosed : -1 ∉ target) (hnonneg : ∀ k ∈ askedSizes allowed ds target, 0 ≤ k)
    (hcount : (askedSizes allowed ds target).prod = ds.prod)
  /-- A size is left open, and the product of the others divides the number of elements. Both
  products can be computed. -/
  | opened {allowed : Bool} {p q : Int}
    (hzero : 0 ∈ target → n.flag "allowzero" false = .ok allowed) (hopen : -1 ∈ target)
    (hnonneg : ∀ k ∈ namedSizes allowed ds target, 0 ≤ k)
    (hdvd : (namedSizes allowed ds target).prod ∣ ds.prod)
    (hnamed : Size.product ((namedSizes allowed ds target).map .whole) = .ok p)
    (htotal : Size.product (ds.map .whole) = .ok q)

end Node

variable {n : Node} {x : Value} {ds es ks target : List Int} {allowed : Bool} {d p q : Int}
  {sizes : List Size}

/-- The number is zero, or none. -/
def Binary.Number.Vanishes (x : Number) : Prop := x = .nan ∨ x.isZero = true

/-- The floating-point number is zero, or none. -/
def Double.Vanishes (x : Double) : Prop := x.number.Vanishes

lemma Binary.Number.Vanishes.mul {x : Number} (h : x.Vanishes) (y : Number) :
    (x.mul y).Vanishes := by
  rcases h with rfl | h
  · exact .inl (by cases y <;> rfl)
  · cases x with
    | finite s m e =>
      obtain rfl : m = 0 := of_decide_eq_true h
      cases y <;> simp [Vanishes, Number.mul, isZero]
    | nan => cases h
    | infinite s => cases h

lemma Binary.Number.mul_comm (x y : Number) : x.mul y = y.mul x := by
  cases x <;> cases y <;> simp [Number.mul, Nat.mul_comm, Int.add_comm, bne_comm]

/-- Rounding keeps zeros, whatever their signs and exponents are. -/
lemma Double.vanishes_ofNumber {x : Number} (h : x.Vanishes) : (Double.ofNumber x).Vanishes := by
  rcases h with rfl | h
  · exact .inl (by decide +kernel)
  · cases x with
    | finite s m e =>
      obtain rfl : m = 0 := of_decide_eq_true h
      have hencode : Double.ofNumber (.finite s 0 e) = Double.ofNumber (.finite s 0 0) := by
        simp [Double.ofNumber, Format.encode]
      rw [hencode]
      cases s <;> exact .inr (by decide +kernel)
    | nan => cases h
    | infinite s => cases h

lemma Double.Vanishes.foldl_mul {x : Double} (h : x.Vanishes) (ys : List Double) :
    (ys.foldl Double.mul x).Vanishes := by
  induction ys generalizing x with
  | nil => exact h
  | cons y ys ih => exact ih (vanishes_ofNumber (Number.Vanishes.mul h _))

lemma Double.vanishes_foldl_mul {ys : List Double} (h : ∃ y ∈ ys, y.Vanishes) (x : Double) :
    (ys.foldl Double.mul x).Vanishes := by
  induction ys generalizing x with
  | nil => simp at h
  | cons y ys ih =>
    obtain ⟨z, hz, hvanishes⟩ := h
    rcases List.mem_cons.mp hz with rfl | hz
    · rw [List.foldl_cons, Double.mul, Number.mul_comm]
      exact Double.Vanishes.foldl_mul (vanishes_ofNumber (hvanishes.mul _)) ys
    · exact ih ⟨z, hz, hvanishes⟩ _

lemma Double.Vanishes.toInt {x : Double} (h : x.Vanishes) {p : Int}
    (hp : (Scalar.float x).toInt = .ok p) : p = 0 := by
  simp only [Scalar.toInt, truncate?] at hp
  rcases h with h | h
  · simp [h, isNan] at hp
  · cases hx : x.number with
    | finite s m e =>
      rw [hx] at h
      obtain rfl : m = 0 := of_decide_eq_true h
      simpa [hx] using hp.symm
    | nan => simp [hx] at h; cases h
    | infinite s => simp [hx] at h; cases h

lemma wrappedProduct_eq (ds : List Int) : wrappedProduct ds = Int.bmod ds.prod (2 ^ 64) := by
  have hfold : ∀ b : Int, ds.foldl (fun p d => Int.bmod (p * d) (2 ^ 64)) (Int.bmod b (2 ^ 64)) =
      Int.bmod (b * ds.prod) (2 ^ 64) := by
    induction ds with
    | nil => simp
    | cons d ds ih =>
      intro b
      rw [List.foldl_cons, Int.bmod_mul_bmod, ih, List.prod_cons, Int.mul_assoc]
  have h := hfold 1
  rwa [Int.one_mul, show Int.bmod 1 (2 ^ 64) = 1 from by decide] at h

lemma foldlM_mul_whole (ds : List Int) :
    (ds.map Size.whole).foldlM Size.mul 1 = .ok (.whole ds.prod) := by
  have hfold : ∀ b : Int,
      (ds.map Size.whole).foldlM Size.mul (.whole b) = .ok (.whole (b * ds.prod)) := by
    induction ds with
    | nil => simp [pure, Except.pure]
    | cons d ds ih =>
      intro b
      rw [List.map_cons, List.foldlM_cons, List.prod_cons, ← Int.mul_assoc]
      exact ih (b * d)
  have h := hfold 1
  rwa [Int.one_mul] at h

/-- A product that is not zero is at least as great as each of its factors. -/
lemma le_prod (hds : ∀ d ∈ ds, 0 ≤ d) (hzero : 0 ∉ ds) {d : Int} (hd : d ∈ ds) : d ≤ ds.prod := by
  have hpos : 0 < ds.prod := by
    have hle := List.prod_nonneg hds
    have hne : ds.prod ≠ 0 := mt List.prod_eq_zero_iff.mp hzero
    omega
  exact Int.le_of_dvd hpos (Dvd.intro _ (List.prod_erase hd))

lemma Size.product_whole (ds : List Int) : Size.product (ds.map .whole) =
    if ds.any (! isWord ·) then .ok ds.prod
    else if ds.all isSigned then .ok (wrappedProduct ds)
    else if ds.all (! isSigned ·) then .ok (ds.foldl (fun p d => p * d % 2 ^ 64) 1)
    else (ds.map Size.whole).mapM toDouble >>= fun factors =>
      (real (factors.foldl Double.mul (.ofInt 1))).toInt := by
  have hnone : ds.any (fun _ => false) = false := by simp
  simp only [Size.product, List.filterMap_map, List.any_map, Function.comp_def, List.filterMap_some,
    hnone, Bool.false_eq_true, if_false, foldlM_mul_whole, List.length_map, true_and]
  rfl

/-- Computed in whatever words, the product of sizes is exact where it fits a signed word. -/
lemma Size.product_eq_prod (hds : ∀ d ∈ ds, 0 ≤ d) (hsmall : ds.prod < 2 ^ 63)
    (h : Size.product (ds.map .whole) = .ok p) : p = ds.prod := by
  have hnonneg : 0 ≤ ds.prod := List.prod_nonneg hds
  rw [Size.product_whole] at h
  split at h
  · exact (Except.ok.inj h).symm
  split at h
  · rw [← Except.ok.inj h, wrappedProduct_eq]
    apply Int.bmod_eq_of_le_mul_two <;> omega
  next hsigned =>
  -- some size is too large for a signed word, so that another one is zero
  have hzero : 0 ∈ ds := by
    by_contra hzero
    refine hsigned (List.all_eq_true.mpr fun d hd => ?_)
    have hle := le_prod hds hzero hd
    have hge := hds d hd
    simp only [isSigned, decide_eq_true_eq]
    omega
  rw [List.prod_eq_zero hzero]
  split at h
  · next hunsigned =>
    have hfalse := List.all_eq_true.mp hunsigned 0 hzero
    exact absurd hfalse (by decide)
  obtain ⟨factors, hfactors, h⟩ := Except.bind_eq_ok.mp h
  obtain ⟨x, hx, hvalue⟩ :=
    forall₂_exists_of_mem (Except.mapM_eq_ok hfactors) (List.mem_map_of_mem hzero)
  have hvanishes : x.Vanishes := by
    obtain rfl : Double.ofInt 0 = x := Except.ok.inj hvalue
    exact .inr (by decide +kernel)
  exact (Double.vanishes_foldl_mul ⟨x, hx, hvanishes⟩ _).toInt h

/-- The attribute is read only where there is a zero. -/
lemma keepZeros_eq_ok_iff : keepZeros n (ds.map .whole) target = .ok sizes ↔
    ∃ allowed, (0 ∈ target → n.flag "allowzero" false = .ok allowed) ∧
      sizes = (askedSizes allowed ds target).map .whole := by
  have hkeep : ∀ allowed, (0 ∈ target → n.flag "allowzero" false = .ok allowed) →
      keepZeros n (ds.map .whole) target = .ok ((askedSizes allowed ds target).map .whole) := by
    intro allowed hflag
    rw [askedSizes, List.map_map]
    refine Except.mapM_eq_ok_map ?_
    rintro ⟨d, i⟩ he
    by_cases hzero : d = 0
    · have hallowed := hflag (hzero ▸ List.fst_mem_of_mem_zipIdx he)
      dsimp only
      rw [hallowed, if_neg (not_not.mpr hzero), Except.ok_bind]
      cases allowed with
      | true => simp [hzero, pure, Except.pure]; rfl
      | false => cases hd : ds[i]? <;> simp [hzero, hd, pure, Except.pure]; rfl
    · simp [hzero, pure, Except.pure]
  constructor
  · intro h
    by_cases hzero : 0 ∈ target
    · obtain ⟨i, hi⟩ := List.mem_iff_getElem?.mp hzero
      have hmem : ((0 : Int), i) ∈ target.zipIdx := List.mem_zipIdx_iff_getElem?.mpr hi
      obtain ⟨s, -, hs⟩ := forall₂_exists_of_mem (Except.mapM_eq_ok h) hmem
      simp only [ne_eq, not_true_eq_false, if_false] at hs
      obtain ⟨allowed, hflag, -⟩ := Except.bind_eq_ok.mp hs
      exact ⟨allowed, fun _ => hflag, Except.ok.inj (h.symm.trans (hkeep allowed fun _ => hflag))⟩
    · have hnone : 0 ∈ target → n.flag "allowzero" false = .ok false := fun h => absurd h hzero
      exact ⟨false, hnone, Except.ok.inj (h.symm.trans (hkeep false hnone))⟩
  · rintro ⟨allowed, hflag, rfl⟩
    exact hkeep allowed hflag

/-- A size is left open where the target leaves it open. -/
lemma count_askedSizes (hds : ∀ d ∈ ds, 0 ≤ d) :
    (askedSizes allowed ds target).count (-1) = target.count (-1) := by
  have hfst : target.count (-1) = target.zipIdx.countP fun e => e.1 == -1 := by
    conv_lhs => rw [← List.zipIdx_map_fst 0 target]
    rw [List.count, List.countP_map]
    rfl
  rw [hfst, List.count, askedSizes, List.countP_map]
  refine List.countP_congr fun e he => ?_
  simp only [Function.comp_apply, beq_iff_eq]
  split
  · next hzero =>
    have hge : 0 ≤ (ds[e.2]?).getD 0 := by
      cases hd : ds[e.2]? with
      | none => exact Int.le_refl 0
      | some d => exact hds d (List.mem_of_getElem? hd)
    omega
  · rfl

lemma notMem_askedSizes (hds : ∀ d ∈ ds, 0 ≤ d) (h : -1 ∉ target) :
    -1 ∉ askedSizes allowed ds target := by
  rw [← List.count_eq_zero, count_askedSizes hds]
  exact List.count_eq_zero.mpr h

/-- Where one size is left open, the named ones stand around it. -/
lemma split_of_count_eq_one (h : ks.count (-1) = 1) :
    ∃ before after, ks = before ++ -1 :: after ∧ ks.filter (· ≠ -1) = before ++ after ∧
      -1 ∉ before := by
  obtain ⟨before, after, rfl, hnot⟩ :=
    List.eq_append_cons_of_mem (List.count_pos_iff.mp (by omega : 0 < ks.count (-1)))
  rw [List.count_append, List.count_cons_self, List.count_eq_zero_of_not_mem hnot] at h
  have hafter : -1 ∉ after := List.count_eq_zero.mp (by omega)
  refine ⟨before, after, rfl, ?_, hnot⟩
  rw [List.filter_append, List.filter_cons_of_neg (by simp)]
  congr 1 <;> refine List.filter_eq_self.mpr fun k hk => decide_eq_true fun heq => ?_
  · exact hnot (heq ▸ hk)
  · exact hafter (heq ▸ hk)

lemma fillInferred_split {before after : List Int} (hnot : -1 ∉ before) :
    fillInferred (ds.map .whole) ((before ++ -1 :: after).map .whole) = do
      let known ← Size.product (((before ++ -1 :: after).filter (· ≠ -1)).map .whole)
      let total ← Size.product (ds.map .whole)
      return (before ++ (if known = 0 then 0 else Int.fdiv total known) :: after).map .whole := by
  have hequals : ∀ k : Int, (Size.whole k).equals inferred = decide (k = -1) := fun k =>
    Size.equals_whole k (-1)
  have hplace : ((before ++ -1 :: after).map Size.whole).findIdx? (·.equals inferred) =
      some before.length := by
    rw [List.findIdx?_eq_some_iff_getElem]
    refine ⟨by simp, by simp [hequals], fun j hj => ?_⟩
    rw [List.getElem_map, List.getElem_append_left hj, hequals, decide_eq_true_iff]
    exact fun heq => hnot (heq ▸ List.getElem_mem hj)
  have hnamed : ((before ++ -1 :: after).map Size.whole).filter (! ·.equals inferred) =
      ((before ++ -1 :: after).filter (· ≠ -1)).map .whole := by
    rw [List.filter_map]
    refine congrArg _ (List.filter_congr fun k _ => ?_)
    simp [hequals]
  unfold fillInferred
  rw [hplace]
  dsimp only
  rw [hnamed]
  refine bind_congr fun known => bind_congr fun total => congrArg Except.ok ?_
  rw [List.map_append, List.map_append, List.map_cons, List.map_cons,
    List.set_append_right _ _ (by simp)]
  simp

/-- The quotient that is filled in makes up for the number of elements, if the named sizes divide
it. -/
lemma quotient_mul_prod (hks : ∀ k ∈ ks, 0 ≤ k) (hds : ∀ d ∈ ds, 0 ≤ d) (hsmall : ds.prod < 2 ^ 63)
    (hdvd : ks.prod ∣ ds.prod) (hp : Size.product (ks.map .whole) = .ok p)
    (hq : Size.product (ds.map .whole) = .ok q) :
    0 ≤ (if p = 0 then 0 else Int.fdiv q p) ∧
      ks.prod * (if p = 0 then 0 else Int.fdiv q p) = ds.prod := by
  have hnonneg : 0 ≤ ds.prod := List.prod_nonneg hds
  have hknown : 0 ≤ ks.prod := List.prod_nonneg hks
  rw [Size.product_eq_prod hds hsmall hq]
  rcases lt_or_ge ks.prod (2 ^ 63) with hlt | hge
  · rw [Size.product_eq_prod hks hlt hp]
    split
    · next hzero =>
      rw [hzero] at hdvd
      exact ⟨Int.le_refl 0, (Int.mul_zero _).trans (Int.zero_dvd.mp hdvd).symm⟩
    · next hne =>
      rw [Int.fdiv_eq_ediv_of_nonneg _ hknown]
      exact ⟨Int.ediv_nonneg hnonneg hknown, Int.mul_ediv_cancel' hdvd⟩
  · -- what is greater than a number divides it only if that number is zero
    have hzero : ds.prod = 0 := Int.eq_zero_of_dvd_of_nonneg_of_lt hnonneg (by omega) hdvd
    rw [hzero, Int.zero_fdiv, ite_self]
    exact ⟨Int.le_refl 0, Int.mul_zero _⟩

/-- The size that is left open is filled in between the named ones. -/
lemma exists_fillInferred_asked (hds : ∀ d ∈ ds, 0 ≤ d) (hcount : target.count (-1) ≤ 1)
    (hopen : -1 ∈ target) : ∃ before after, namedSizes allowed ds target = before ++ after ∧
      fillInferred (ds.map .whole) ((askedSizes allowed ds target).map .whole) = (do
        let p ← Size.product ((namedSizes allowed ds target).map .whole)
        let q ← Size.product (ds.map .whole)
        return (before ++ (if p = 0 then 0 else Int.fdiv q p) :: after).map .whole) := by
  have hone : (askedSizes allowed ds target).count (-1) = 1 := by
    rw [count_askedSizes hds]
    have hpos := List.count_pos_iff.mpr hopen
    omega
  obtain ⟨before, after, hsplit, hnamed, hnot⟩ := split_of_count_eq_one hone
  refine ⟨before, after, hnamed, ?_⟩
  rw [hsplit, fillInferred_split hnot, ← hsplit, namedSizes]

lemma prod_around (before after : List Int) (r : Int) :
    (before ++ r :: after).prod = (before ++ after).prod * r := by
  rw [List.prod_append, List.prod_append, List.prod_cons, Int.mul_comm r, Int.mul_assoc]

lemma nonneg_around {before after : List Int} {r : Int} :
    (∀ e ∈ before ++ r :: after, 0 ≤ e) ↔ (∀ e ∈ before ++ after, 0 ≤ e) ∧ 0 ≤ r := by
  rw [List.forall_mem_append, List.forall_mem_append, List.forall_mem_cons]
  tauto

/-- The sizes that reshaping computes are as many elements if and only if the target fits. -/
lemma fitsCount_iff (hds : ∀ d ∈ ds, 0 ≤ d) (hsmall : ds.prod < 2 ^ 63)
    (hcount : target.count (-1) ≤ 1) :
    (∃ es : List Int, (keepZeros n (ds.map .whole) target >>= fillInferred (ds.map .whole)) =
      .ok (es.map .whole) ∧ (∀ e ∈ es, 0 ≤ e) ∧ es.prod = ds.prod) ↔ n.FitsCount ds target := by
  have hinjective : Function.Injective (List.map Size.whole) :=
    List.map_injective_iff.mpr fun _ _ => Size.whole.inj
  constructor
  · rintro ⟨es, hes, hnonneg, hprod⟩
    obtain ⟨kept, hkept, hfilled⟩ := Except.bind_eq_ok.mp hes
    obtain ⟨allowed, hzero, rfl⟩ := keepZeros_eq_ok_iff.mp hkept
    by_cases hopen : -1 ∈ target
    · obtain ⟨before, after, hnamed, hfill⟩ := exists_fillInferred_asked hds hcount hopen
      obtain ⟨p, hp, hfilled⟩ := Except.bind_eq_ok.mp (hfill.symm.trans hfilled)
      obtain ⟨q, hq, hfilled⟩ := Except.bind_eq_ok.mp hfilled
      obtain rfl := hinjective (Except.ok.inj hfilled)
      rw [prod_around, ← hnamed] at hprod
      exact .opened hzero hopen (hnamed ▸ (nonneg_around.mp hnonneg).1)
        (hprod ▸ Int.dvd_mul_right _ _) hp hq
    · rw [fillInferred_of_notMem (notMem_askedSizes hds hopen)] at hfilled
      obtain rfl := hinjective (Except.ok.inj hfilled)
      exact .closed hzero hopen hnonneg hprod
  · intro hfits
    cases hfits with
    | closed hzero hclosed hnonneg hprod =>
      refine ⟨_, ?_, hnonneg, hprod⟩
      rw [keepZeros_eq_ok_iff.mpr ⟨_, hzero, rfl⟩, Except.ok_bind,
        fillInferred_of_notMem (notMem_askedSizes hds hclosed)]
    | opened hzero hopen hnonneg hdvd hp hq =>
      obtain ⟨before, after, hnamed, hfill⟩ := exists_fillInferred_asked hds hcount hopen
      obtain ⟨hrest, hprod⟩ := quotient_mul_prod hnonneg hds hsmall hdvd hp hq
      refine ⟨_, ?_, nonneg_around.mpr ⟨hnamed ▸ hnonneg, hrest⟩, ?_⟩
      · rw [keepZeros_eq_ok_iff.mpr ⟨_, hzero, rfl⟩, Except.ok_bind, hfill, hp, hq]
        rfl
      · rw [prod_around, ← hnamed, hprod]

/-! ## Nodes -/

/-- A vector of integers is read as those. -/
lemma Literal.toInts_vector (layout : Layout) (is : List Int) :
    (Literal.vector layout (is.map .int)).toInts = .ok is := Scalar.mapM_toInt is

namespace Node

lemma ReshapesTo.rule (h : n.ReshapesTo x ds target) : rule? n.operator = some reshape := by
  rw [h.operator]
  rfl

/-- Where the numbers of operands and of outputs are right and one size at most is left open,
nothing is refused any more. -/
lemma reshape_eq_filled (hx : n.input 0 = .ok x) (hsizes : x.type.dims? = some (ds.map .whole))
    (htarget : n.integers? 1 "shape" = .ok (some target)) (harity : n.HasReshapeArity)
    (hcount : target.count (-1) ≤ 1) : reshape n =
      (keepZeros n (ds.map .whole) target >>= fillInferred (ds.map .whole)).map fun filled =>
        .ofRank x.type.element (.ofNat target.length) (some filled) := by
  unfold HasReshapeArity at harity
  unfold reshape
  rw [if_neg (by omega), hx, htarget]
  simp only [Except.ok_bind, reshapeTo]
  rw [if_neg (by omega), hsizes]
  dsimp only
  cases hkept : keepZeros n (ds.map .whole) target with
  | error e => rfl
  | ok kept =>
    simp only [Except.ok_bind]
    cases fillInferred (ds.map .whole) kept <;> rfl

lemma ReshapesTo.refused (h : n.ReshapesTo x ds target)
    (hwrong : ¬ n.HasReshapeArity ∨ 1 < target.count (-1)) :
    ∃ e, n.infer = .error (.typing e) := by
  rw [infer_refused_iff h.rule]
  unfold HasReshapeArity at hwrong
  unfold reshape
  by_cases harity : n.outputs.length ≠ 1 ∨ n.inputs.length ≠ 1 ∧ n.inputs.length ≠ 2
  · rw [if_pos harity]
    exact ⟨.reshapeArity, rfl⟩
  · rw [if_neg harity, h.data, h.target]
    simp only [Except.ok_bind, reshapeTo]
    rw [if_pos (by omega)]
    exact ⟨.reshapeInferred, rfl⟩

lemma failsOnly_product (sizes : List Size) : FailsOnly Error.IsFault (Size.product sizes) := by
  have htoInt : ∀ s : Size, FailsOnly Error.IsFault s.toInt := by
    intro s
    unfold Size.toInt Scalar.toInt
    repeat' split
    all_goals simp
  unfold Size.product
  repeat' split
  all_goals simp [htoInt]

/-- Computing the sizes fails with faults only. -/
lemma failsOnly_filled (target : List Int) : FailsOnly Error.IsFault
    (keepZeros n (ds.map .whole) target >>= fillInferred (ds.map .whole)) := by
  have hkeep : FailsOnly Error.IsFault (keepZeros n (ds.map .whole) target) := by
    refine failsOnly_mapM fun e _ => ?_
    simp
  refine failsOnly_bind.mpr ⟨hkeep, fun kept _ => ?_⟩
  unfold fillInferred
  split <;> simp [failsOnly_product]

/-- Reshaping is refused or keeps the number of elements if and only if the node has a wrong number
of operands or outputs, or leaves more than one size open, or its target fits the number of
elements. -/
theorem keepsCount_iff (h : n.ReshapesTo x ds target) : n.KeepsCount ds ↔
    ¬ n.HasReshapeArity ∨ 1 < target.count (-1) ∨ n.FitsCount ds target := by
  by_cases hwrong : ¬ n.HasReshapeArity ∨ 1 < target.count (-1)
  · exact iff_of_true (.inl (h.refused hwrong)) (by tauto)
  obtain ⟨harity, hcount⟩ := not_or.mp hwrong
  rw [not_not] at harity
  rw [Nat.not_lt] at hcount
  obtain ⟨y, hy⟩ := List.length_eq_one_iff.mp harity.1
  have hrule := reshape_eq_filled h.data h.sizes h.target harity hcount
  have hrefused : ¬ ∃ e, n.infer = .error (.typing e) := by
    rw [infer_refused_iff h.rule, hrule]
    exact FailsOnly.not_typing (failsOnly_map.mpr (failsOnly_filled target))
  unfold KeepsCount
  rw [or_iff_right hrefused, resultType_eq h.rule hy, hrule, or_iff_right (not_not.mpr harity),
    or_iff_right (Nat.not_lt.mpr hcount), ← fitsCount_iff h.nonneg h.small hcount]
  constructor
  · rintro ⟨t, es, ht, hdims, hes⟩
    obtain ⟨filled, hfilled, rfl⟩ := Except.map_eq_ok.mp ht
    obtain ⟨kept, hkept, hfill⟩ := Except.bind_eq_ok.mp hfilled
    have hlen : filled.length = target.length :=
      (length_fillInferred hfill).trans (length_keepZeros hkept)
    rw [dims?_ofRank_of_length hlen] at hdims
    exact ⟨es, Option.some.inj hdims ▸ hfilled, hes⟩
  · rintro ⟨es, hfilled, hes⟩
    obtain ⟨kept, hkept, hfill⟩ := Except.bind_eq_ok.mp hfilled
    have hlen : (es.map Size.whole).length = target.length :=
      (length_fillInferred hfill).trans (length_keepZeros hkept)
    exact ⟨_, es, Except.map_eq_ok.mpr ⟨_, hfilled, rfl⟩, dims?_ofRank_of_length hlen, hes⟩

end Node

/-- An operand of the given sizes is reshaped to a target. -/
def reshapeOf (ds target : List Int) : Node where
  operator := .reshape
  name := ""
  inputs := [{ name := "x", type := .tensor .float32 (.ofNat ds.length) (some (ds.map .whole)) },
    { name := "shape", literal := some (.vector (.signed 64) (target.map .int)) }]
  outputs := [{ name := "y" }]

lemma reshapesTo_reshapeOf (hds : ∀ d ∈ ds, 0 ≤ d) (hsmall : ds.prod < 2 ^ 63) :
    ∃ x, (reshapeOf ds target).ReshapesTo x ds target := by
  have htarget := Literal.toInts_vector (.signed 64) target
  exact ⟨_, rfl, rfl, rfl, hds, hsmall, congrArg (Except.map some) htarget⟩

theorem Node.keepsCount_kept : (reshapeOf [2, 6] [0, -1, 3]).KeepsCount [2, 6] := by
  obtain ⟨x, hx⟩ : ∃ x, (reshapeOf [2, 6] [0, -1, 3]).ReshapesTo x [2, 6] [0, -1, 3] :=
    reshapesTo_reshapeOf (by decide) (by decide)
  refine (Node.keepsCount_iff hx).mpr (.inr (.inr ?_))
  have hnamed : namedSizes false [2, 6] [0, -1, 3] = [2, 3] := by decide
  have hproduct : Size.product ((namedSizes false [2, 6] [0, -1, 3]).map .whole) = .ok 6 := by
    rw [hnamed]
    rfl
  refine .opened (fun _ => rfl) (by decide) ?_ ?_ hproduct rfl
  · rw [hnamed]
    decide
  · rw [hnamed]
    decide

/-- Six elements do not fall into rows of four, and become four. -/
theorem not_keepsCount_rounded : ¬ (reshapeOf [2, 3] [4, -1]).KeepsCount [2, 3] := by
  have htype : (reshapeOf [2, 3] [4, -1]).resultType = .ok (.tensor .float32 2 (some [4, 1])) := rfl
  rintro (⟨e, he⟩ | ⟨t, es, ht, hdims, -, hprod⟩)
  · cases (Node.resultType_error he).symm.trans htype
  · obtain rfl := Except.ok.inj (htype.symm.trans ht)
    obtain rfl : [4, 1] = es :=
      List.map_injective_iff.mpr (fun _ _ => Size.whole.inj) (Option.some.inj hdims)
    exact absurd hprod (by decide)

end TensorGraph
