import TensorGraph.Proofs.Safety.Rules
import TensorGraph.Proofs.WindowCounts

/-!
# Permuted axes

A Transpose lists the axes of its operand in a new order. It is refused if the list is not as long
as there are axes, or if an entry is not a place of one. Among the lists that have no axis twice,
exactly the permutations are accepted, the sizes of the result are those of the operand rearranged,
and the inverse permutation gives the type of the operand back (`Node.permutesAxes_of_nodup`).
-/

namespace TensorGraph

open Typing ValueType

/-- The list has each of `r` axes once. -/
def IsPermutation (r : Nat) (perm : List Int) : Prop :=
  perm.Perm ((List.range r).map fun i : Nat => (i : Int))

instance (r : Nat) (perm : List Int) : Decidable (IsPermutation r perm) := by
  unfold IsPermutation
  infer_instance

/-- The list has as many entries as there are axes, and they are places of axes. -/
structure FitsAxes (r : Nat) (perm : List Int) : Prop where
  length : perm.length = r
  range : ∀ p ∈ perm, 0 ≤ p ∧ p < r

/-- The list that has, for each axis, the place at which a permutation lists it. -/
def inversePermutation (perm : List Int) : List Int :=
  (List.range perm.length).map fun i : Nat => (perm.idxOf (i : Int) : Int)

/-- The entries of a list in the order in which their places are listed. -/
def permuted {α : Type} [Inhabited α] (perm : List Int) (xs : List α) : List α :=
  perm.map fun p => xs.getD p.toNat default

namespace Node

/-- The node is a Transpose with one operand, of type `t`, and one output, and `perm` is its list of
axes. -/
structure Transposes (n : Node) (t : ValueType) (perm : List Int) : Prop where
  operator : n.operator = .transpose
  operand : ∃ x, n.inputs = [x] ∧ x.type = t
  output : ∃ y, n.outputs = [y]
  perm : n.attribute? "perm" = some (.ints perm)

/-- The node, which lists the axes of an operand of type `t` with `r` axes, is refused exactly if it
does not list a permutation. Otherwise the sizes of the result are those of the operand rearranged, or
unknown if those are, and to list the inverse permutation next gives the type of the operand back,
where a tensor without axes comes back as a scalar. -/
structure PermutesAxes (n : Node) (t : ValueType) (r : Nat) (perm : List Int) : Prop where
  refuses_iff : n.resultType = .error (.typing .transposePerm) ↔ ¬ IsPermutation r perm
  accepts : IsPermutation r perm → ∃ u, n.resultType = .ok u
  rearranges : ∀ u, n.resultType = .ok u → ∀ sizes, t.dims? = some sizes →
    ∃ sizes', u.dims? = some sizes' ∧ sizes'.Perm sizes
  unknown : ∀ u, n.resultType = .ok u → 0 < r → t.dims? = none → u.dims? = none
  restores : ∀ u, n.resultType = .ok u → ∀ m : Node, m.Transposes u (inversePermutation perm) →
    m.resultType = .ok (if r = 0 then .scalar t.element else t)

end Node

variable {n : Node} {t u : ValueType} {r : Nat} {perm : List Int}

/-- As many places as there are axes are all of them, if none is repeated. -/
lemma isPermutation_iff : IsPermutation r perm ↔ FitsAxes r perm ∧ perm.Nodup := by
  have hnodup : ((List.range r).map fun i : Nat => (i : Int)).Nodup :=
    List.nodup_range.map fun _ _ => Int.ofNat.inj
  constructor
  · intro h
    refine ⟨⟨by simpa using h.length_eq, fun p hp => ?_⟩, h.nodup_iff.mpr hnodup⟩
    obtain ⟨i, hi, rfl⟩ := List.mem_map.mp (h.mem_iff.mp hp)
    have hlt := List.mem_range.mp hi
    omega
  · rintro ⟨hfits, hperm⟩
    have hsub : perm ⊆ (List.range r).map fun i : Nat => (i : Int) := by
      intro p hp
      obtain ⟨hpos, hlt⟩ := hfits.range p hp
      exact List.mem_map.mpr ⟨p.toNat, List.mem_range.mpr (by omega), Int.toNat_of_nonneg hpos⟩
    exact (List.subperm_of_subset hperm hsub).perm_of_length_le (by simp [hfits.length])

namespace IsPermutation

variable (h : IsPermutation r perm)

include h

lemma fits : FitsAxes r perm := (isPermutation_iff.mp h).1

lemma mem_of_lt {i : Nat} (hi : i < r) : (i : Int) ∈ perm :=
  h.mem_iff.mpr (List.mem_map.mpr ⟨i, List.mem_range.mpr hi, rfl⟩)

/-- The inverse of a permutation is one. -/
lemma inverse : IsPermutation r (inversePermutation perm) := by
  have hlength := h.fits.length
  refine isPermutation_iff.mpr ⟨⟨by simp [inversePermutation, hlength], fun q hq => ?_⟩, ?_⟩
  · obtain ⟨i, hi, rfl⟩ := List.mem_map.mp hq
    have hlt := List.idxOf_lt_length_of_mem (h.mem_of_lt (hlength ▸ List.mem_range.mp hi))
    omega
  · refine List.nodup_range.map_on fun i hi j hj heq => ?_
    have hi := h.mem_of_lt (hlength ▸ List.mem_range.mp hi)
    exact Int.ofNat.inj ((List.idxOf_inj hi).mp (Int.ofNat.inj heq))

/-- The entries are rearranged. -/
lemma permuted_perm {α : Type} [Inhabited α] {xs : List α} (hxs : xs.length = r) :
    (permuted perm xs).Perm xs := by
  have hmap := h.map fun p : Int => xs.getD p.toNat default
  have hall : (List.range r).map (fun i : Nat => xs.getD i default) = xs :=
    hxs ▸ map_getD_range xs
  rwa [List.map_map, show ((fun p : Int => xs.getD p.toNat default) ∘ fun i : Nat => (i : Int)) =
    fun i : Nat => xs.getD i default from rfl, hall] at hmap

/-- The inverse permutation puts the entries back in order. -/
lemma permuted_inverse {α : Type} [Inhabited α] {xs : List α} (hxs : xs.length = r) :
    permuted (inversePermutation perm) (permuted perm xs) = xs := by
  have hlength := h.fits.length
  refine List.ext_getElem (by simp [permuted, inversePermutation, hlength, hxs]) fun i hi hi' => ?_
  have hmem : (i : Int) ∈ perm := h.mem_of_lt (hxs ▸ hi')
  have hlt := List.idxOf_lt_length_of_mem hmem
  simp [permuted, inversePermutation, List.getD_eq_getElem?_getD, hlt, hi']

end IsPermutation

/-! ## Types -/

lemma permutedAxes_ints (r : Nat) (perm : List Int) :
    permutedAxes (.ofNat r) (perm.map .int) =
      if ∀ p ∈ perm, 0 ≤ p ∧ p < r then .ok (perm.map fun p => .number (.whole p))
      else .error (.typing .transposePerm) := by
  induction perm with
  | nil => rfl
  | cons p ps ih =>
    have hread : Quantity.ofAttribute (.int p) = .ok (.number (.whole p)) := rfl
    have hreaches : (Quantity.number (.whole p)).reaches (.ofNat r) = .ok (decide (r ≤ p)) :=
      Quantity.reaches_whole p r
    rw [permutedAxes] at ih ⊢
    rw [List.map_cons, List.mapM_cons, ih, hread, Except.ok_bind, Quantity.isNegative_whole, hreaches,
      Except.ok_bind, Except.ok_bind]
    by_cases hp : 0 ≤ p ∧ p < r
    · have hin : (decide (p < 0) || decide ((r : Int) ≤ p)) = false := by
        rw [Bool.or_eq_false_iff, decide_eq_false_iff_not, decide_eq_false_iff_not]
        omega
      simp only [hin, Bool.false_eq_true, if_false, List.forall_mem_cons, hp, true_and]
      split <;> rfl
    · have hout : (decide (p < 0) || decide ((r : Int) ≤ p)) = true := by
        rw [Bool.or_eq_true, decide_eq_true_eq, decide_eq_true_eq]
        omega
      simp only [hout, if_true, List.forall_mem_cons, hp, false_and, if_false]
      rfl

lemma FitsAxes.pick (h : FitsAxes r perm) {sizes : List Size} (hsizes : sizes.length = r) :
    (perm.map fun p => Quantity.number (.whole p)).mapM
      (fun (a : Quantity) => do Place.get sizes (← a.index)) = .ok (permuted perm sizes) := by
  rw [List.mapM_map]
  refine Except.mapM_eq_ok_map fun p hp => ?_
  obtain ⟨hpos, hlt⟩ := h.range p hp
  have hplace : p.toNat < sizes.length := by omega
  have hget := Place.get_ofNat hplace
  rw [Int.toNat_of_nonneg hpos] at hget
  rw [List.getD_eq_getElem?_getD, List.getElem?_eq_getElem hplace]
  exact hget

namespace Node.Transposes

variable (ht : t.HasAxes r) (h : n.Transposes t perm)

include ht h

lemma resultType_eq : n.resultType = if perm.length ≠ r then .error (.typing .transposePerm)
    else permutedAxes (.ofNat r) (perm.map .int) >>= fun axes => do
      let shape ← match t.dims? with
        | some dims => (axes.mapM fun (a : Quantity) => do Place.get dims (← a.index)).map some
        | none => pure none
      return .ofRank t.element (.ofNat r) shape := by
  obtain ⟨x, hx, rfl⟩ := h.operand
  obtain ⟨y, hy⟩ := h.output
  have hinput : n.input 0 = .ok x := by simp [Node.input, hx]
  have hperm : permutation n (.ofNat r) = .ok (perm.map .int) := by
    rw [permutation, h.perm]
    rfl
  rw [Node.resultType_eq (by rw [h.operator]; rfl) hy, transpose, hx, hy, if_neg (by simp), hinput]
  simp only [Except.ok_bind, ht.rank, hperm, List.length_map, Size.equals_ofNat]
  by_cases hlength : r = perm.length
  · exact (if_neg (by simp [hlength])).trans (if_neg (not_not.mpr hlength.symm)).symm
  · exact (if_pos (by simp [hlength])).trans (if_pos (Ne.symm hlength)).symm

lemma resultType_of_fits (hfits : FitsAxes r perm) :
    n.resultType = .ok (.ofRank t.element (.ofNat r) (t.dims?.map (permuted perm))) := by
  rw [resultType_eq ht h, permutedAxes_ints, if_pos hfits.range, if_neg (not_not.mpr hfits.length),
    Except.ok_bind]
  cases hdims : t.dims? with
  | none => rfl
  | some sizes =>
    simp only [hfits.pick (ht.length sizes hdims)]
    rfl

lemma resultType_of_not_fits (hfits : ¬ FitsAxes r perm) :
    n.resultType = .error (.typing .transposePerm) := by
  rw [resultType_eq ht h, permutedAxes_ints]
  by_cases hlength : perm.length = r
  · have hrange : ¬ ∀ p ∈ perm, 0 ≤ p ∧ p < r := fun hrange => hfits ⟨hlength, hrange⟩
    rw [if_neg (not_not.mpr hlength), if_neg hrange]
    rfl
  · rw [if_pos hlength]

lemma fits_of_ok (hu : n.resultType = .ok u) : FitsAxes r perm := by
  by_contra hfits
  rw [resultType_of_not_fits ht h hfits] at hu
  cases hu

end Node.Transposes

/-- What the inverse of a permutation makes of a tensor that has been permuted. -/
lemma Node.Transposes.restores {m : Node} {e : ElementType} {dims : Option (List Size)}
    (hdims : ∀ sizes, dims = some sizes → sizes.length = r) (hperm : IsPermutation r perm)
    (hm : m.Transposes (.ofRank e (.ofNat r) (dims.map (permuted perm))) (inversePermutation perm)) :
    m.resultType = .ok (if r = 0 then .scalar e else .tensor e (.ofNat r) dims) := by
  rcases Nat.eq_zero_or_pos r with rfl | hpos
  · rw [hm.resultType_of_fits (hasAxes_scalar e) hperm.inverse.fits]
    rfl
  · rw [ofRank_of_pos hpos] at hm
    have ht : (ValueType.tensor e (.ofNat r) (dims.map (permuted perm))).HasAxes r := by
      refine ⟨rfl, fun sizes hsizes => ?_⟩
      obtain ⟨sizes, rfl, rfl⟩ := Option.map_eq_some_iff.mp hsizes
      exact (List.length_map _).trans hperm.fits.length
    rw [hm.resultType_of_fits ht hperm.inverse.fits, ofRank_of_pos hpos, if_neg (by omega)]
    cases dims with
    | none => rfl
    | some sizes =>
      have hback := hperm.permuted_inverse (hdims sizes rfl)
      simp only [dims?, element, Option.map_some, hback]

/-- A Transpose of a tensor of `r` axes, whose sizes, if they are known, are as many, accepts exactly
the permutations of the axes and rearranges the sizes, where its list does not fit the axes with one of
them twice. -/
theorem Node.permutesAxes_of_nodup (htensor : t.isTensor = true) (ht : t.HasAxes r)
    (h : n.Transposes t perm) (hnodup : FitsAxes r perm → perm.Nodup) : n.PermutesAxes t r perm := by
  have hperm : FitsAxes r perm → IsPermutation r perm :=
    fun hfits => isPermutation_iff.mpr ⟨hfits, hnodup hfits⟩
  refine ⟨⟨fun hrefused hperm => ?_, fun hperm' => ?_⟩, fun hperm => ?_, fun u hu sizes hsizes => ?_,
    fun u hu hpos hdims => ?_, fun u hu m hm => ?_⟩
  · rw [h.resultType_of_fits ht hperm.fits] at hrefused
    cases hrefused
  · exact h.resultType_of_not_fits ht fun hfits => hperm' (hperm hfits)
  · exact ⟨_, h.resultType_of_fits ht hperm.fits⟩
  · have hfits := h.fits_of_ok ht hu
    rw [h.resultType_of_fits ht hfits, hsizes] at hu
    obtain rfl := Except.ok.inj hu
    have hlength : (permuted perm sizes).length = r := (List.length_map _).trans hfits.length
    exact ⟨_, dims?_ofRank_of_length hlength, (hperm hfits).permuted_perm (ht.length sizes hsizes)⟩
  · rw [h.resultType_of_fits ht (h.fits_of_ok ht hu), hdims, ofRank_of_pos hpos] at hu
    obtain rfl := Except.ok.inj hu
    rfl
  · have hfits := h.fits_of_ok ht hu
    rw [h.resultType_of_fits ht hfits] at hu
    obtain rfl := Except.ok.inj hu
    cases t with
    | tensor e s dims =>
      obtain rfl : s = .ofNat r := ht.rank
      exact hm.restores ht.length (hperm hfits)
    | scalar | shape => cases htensor

/-- A node that lists the axes of an operand of type `t`. -/
def listingAxes (t : ValueType) (perm : List Int) : Node where
  operator := .transpose
  name := "turn"
  inputs := [{ name := "x", type := t }]
  outputs := [{ name := "y" }]
  attributes := .ofList [("perm", .ints perm)]

lemma transposes_listingAxes (t : ValueType) (perm : List Int) :
    (listingAxes t perm).Transposes t perm := ⟨rfl, ⟨_, rfl, rfl⟩, ⟨_, rfl⟩, rfl⟩

/-- The axes of three sizes, turned by one place and back. -/
theorem Node.permutesAxes_turned :
    (listingAxes (.tensor .float32 3 (some [2, 3, 4])) [1, 2, 0]).PermutesAxes
      (.tensor .float32 3 (some [2, 3, 4])) 3 [1, 2, 0] ∧
    (listingAxes (.tensor .float32 3 (some [3, 4, 2])) [2, 0, 1]).resultType =
      .ok (.tensor .float32 3 (some [2, 3, 4])) := by
  have ht : (ValueType.tensor .float32 3 (some [2, 3, 4])).HasAxes 3 :=
    ⟨rfl, fun _ hds => Option.some.inj hds ▸ rfl⟩
  have hpermutes := Node.permutesAxes_of_nodup rfl ht (transposes_listingAxes _ [1, 2, 0])
    fun _ => by decide
  exact ⟨hpermutes, hpermutes.restores _ (by rfl) _ (transposes_listingAxes _ _)⟩

/-- A tensor without axes comes back as a scalar, and a list that fits the axes and has one twice is
accepted. -/
theorem not_permutesAxes_withoutAxes :
    (IsPermutation 0 [] ∧
      (listingAxes (.tensor .float32 0 (some [])) []).resultType = .ok (.scalar .float32) ∧
      ¬ ∀ m : Node, m.Transposes (.scalar .float32) (inversePermutation []) →
        m.resultType = .ok (.tensor .float32 0 (some []))) ∧
    ¬ IsPermutation 2 [0, 0] ∧
      (listingAxes (.tensor .float32 2 (some [2, 3])) [0, 0]).resultType =
        .ok (.tensor .float32 2 (some [2, 2])) := by
  refine ⟨⟨by decide, rfl, fun hback => ?_⟩, by decide, rfl⟩
  have hscalar : (listingAxes (.scalar .float32) []).resultType = .ok (.scalar .float32) := rfl
  have htensor : (listingAxes (.scalar .float32) []).resultType = _ :=
    hback _ (transposes_listingAxes _ [])
  rw [hscalar] at htensor
  cases htensor

end TensorGraph
