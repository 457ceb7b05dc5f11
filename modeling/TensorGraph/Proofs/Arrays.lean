import TensorGraph.Onnx.Array
import TensorGraph.Proofs.Checked

/-!
# Arrays of a file

What the array of a message has of the message (`TensorMessage.toLiteral_ok`), the rows of a matrix
(`Literal.map_data_parts`), and the values of an array of one axis (`Literal.spread?_self`).
-/

namespace TensorGraph

open Onnx Position

variable {layout : Layout} {a : Literal} {data : List Scalar} {dims : List Int} {size k : Nat}

lemma Position.within_iff {dims index : List Nat} :
    Within dims index ↔ List.Forall₂ (fun d i => i < d) dims index := by
  induction dims generalizing index with
  | nil => cases index <;> simp [Within]
  | cons d dims ih => cases index <;> simp [Within, ih]

namespace Literal

lemma length_definiteDims {shape : List Nat} (h : definiteDims size dims = some shape) :
    shape.length = dims.length := by
  have hle := List.length_filter_le (fun d : Int => decide (0 ≤ d)) dims
  unfold definiteDims at h
  simp only [List.length_map] at h
  split at h
  · simp at h
  split at h
  · next hzero =>
    rw [← Option.some.inj h, List.length_map]
    omega
  · split at h
    · rw [← Option.some.inj h, List.length_map]
    · simp at h
  · simp at h

/-- Sizes that are natural numbers are definite. -/
lemma definiteDims_natural {sizes : List Nat} (hrank : sizes.length ≤ maxRank) :
    definiteDims size (sizes.map fun d : Nat => (d : Int)) = some sizes := by
  have hknown : (sizes.map fun d : Nat => (d : Int)).filter (0 ≤ ·) =
      sizes.map fun d : Nat => (d : Int) := by simp
  have hnatural : (sizes.map fun d : Nat => (d : Int)).map Int.toNat = sizes := by
    simp [Function.comp_def]
  simp only [definiteDims, hknown, hnatural, List.length_map, Nat.sub_self]
  rw [if_neg (Nat.not_lt.mpr hrank)]

lemma ofDims_ok (h : ofDims layout data dims = .ok a) :
    a.layout = layout ∧ a.data = data ∧ definiteDims data.length dims = some a.shape := by
  unfold ofDims at h
  split at h
  · next b hb =>
    obtain ⟨shape, hshape, hb⟩ := Option.bind_eq_some_iff.mp hb
    split at h
    · obtain rfl : b = a := by simpa using h
      unfold ofData? at hb
      split at hb
      · rw [← Option.some.inj hb]
        exact ⟨rfl, rfl, hshape⟩
      · simp at hb
    · simp [badValue] at h
  · simp [badValue] at h

/-- An array has the sizes asked for, if its elements are as many and its bytes can be counted. -/
lemma ofDims_natural {sizes : List Nat} (hrank : sizes.length ≤ maxRank)
    (hdata : data.length = sizes.prod) (hcount : isCountable layout sizes = true) :
    ofDims layout data (sizes.map fun d : Nat => (d : Int)) = .ok ⟨layout, sizes, data, hdata⟩ := by
  have hofData : ofData? layout sizes data = some ⟨layout, sizes, data, hdata⟩ := dif_pos hdata
  simp only [ofDims, definiteDims_natural hrank, Option.bind_some, hofData, hcount, if_true]

end Literal

/-- The array of a message has the layout of a type of files, and as many axes as the message gives
sizes. -/
lemma TensorMessage.toLiteral_ok {t : TensorMessage} (h : t.toLiteral = .ok a) :
    (∃ type ∈ DataType.all, a.layout = type.layout) ∧ a.shape.length = t.dims.length := by
  unfold TensorMessage.toLiteral at h
  by_cases hs : t.isSegment = true
  · simp [hs, bind, Except.bind] at h
  by_cases hd : t.dataType = 0
  · simp [hs, hd, bind, Except.bind] at h
  simp only [hs, hd, if_false, Bool.false_eq_true] at h
  cases hcode : DataType.ofCode? t.dataType with
  | none => simp [hcode] at h
  | some type =>
    simp only [hcode, Except.bind_eq_ok] at h
    obtain ⟨_, -, h⟩ := h
    obtain ⟨hlayout, -, hshape⟩ := Literal.ofDims_ok h
    exact ⟨⟨type, List.mem_of_find?_eq_some hcode, hlayout⟩, Literal.length_definiteDims hshape⟩

/-- A row of a matrix is a piece of its elements. -/
lemma take_drop_flatten {α : Type} {rows : List (List α)} {width : Nat} {row : List α}
    (hrows : ∀ row ∈ rows, row.length = width) (hk : rows[k]? = some row) :
    (rows.flatten.drop (k * width)).take width = row := by
  induction rows generalizing k with
  | nil => simp at hk
  | cons r rows ih =>
    have hr : r.length = width := hrows r (by simp)
    cases k with
    | zero =>
      obtain rfl : r = row := by simpa using hk
      simp [← hr]
    | succ k =>
      have hdrop : (k + 1) * width = r.length + k * width := by rw [hr, Nat.succ_mul, Nat.add_comm]
      rw [List.flatten_cons, hdrop, ← List.drop_drop, List.drop_left]
      exact ih (fun row hrow => hrows row (by simp [hrow])) (by simpa using hk)

/-- The parts of a matrix are its rows. -/
lemma Literal.map_data_parts {a : Literal} {rows : List (List Scalar)} {width : Nat}
    (hshape : a.shape = [rows.length, width]) (hdata : a.data = rows.flatten)
    (hrows : ∀ row ∈ rows, row.length = width) : a.parts.map Literal.data = rows := by
  have hpart : ∀ i ∈ List.range rows.length, (ofData? a.layout [width]
      ((a.data.drop (i * [width].prod)).take [width].prod)).map Literal.data =
        some (rows.getD i default) := by
    intro i hi
    have hrow := List.getElem?_eq_getElem (List.mem_range.mp hi)
    have hlength := hrows _ (List.mem_of_getElem? hrow)
    rw [List.prod_singleton, hdata, take_drop_flatten hrows hrow, ofData?,
      dif_pos (by rw [List.prod_singleton, hlength])]
    simp [List.getD_eq_getElem?_getD, hrow]
  simp only [parts, hshape, List.map_filterMap]
  rw [List.filterMap_congr hpart, List.filterMap_eq_map']
  exact map_getD_range rows

/-- Integers are read as those. -/
lemma Scalar.mapM_toInt (is : List Int) : (is.map Scalar.int).mapM Scalar.toInt = .ok is := by
  rw [List.mapM_map]
  exact (Except.mapM_eq_ok_map fun i _ => rfl).trans (congrArg _ (List.map_id is))

/-- Values of one axis fill an axis of that size as they are. -/
lemma Literal.spread?_self {a : Literal} {count : Nat} (hshape : a.shape = [count]) :
    a.spread? [count] = some a.data := by
  have hlength : a.data.length = count := by rw [a.length_data, hshape, List.prod_singleton]
  have hdata := map_getD_range a.data
  rw [hlength] at hdata
  by_cases hone : count = 1
  · subst hone
    simpa [spread?, hshape, ofIndex] using hdata
  · simpa [spread?, hshape, hone, ofIndex, toIndex] using hdata

end TensorGraph
