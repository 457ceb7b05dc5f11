import Mathlib.Algebra.BigOperators.Ring.Finset
import Mathlib.Algebra.Order.Ring.Nat
import TensorGraph.Onnx.Sparse
import TensorGraph.Proofs.Arrays
import TensorGraph.Proofs.ReshapedCounts

/-!
# Sparse arrays

A sparse array gives its entries at coordinates or at row-major positions. Read either way it is the
same array, of the sizes that it declares, with its values at their places and zeros at all others,
if it has at most as many axes as coordinates may have and can be allocated
(`SparseMessage.toLiteralWithin_coordinates`). How much can be allocated is left open.
-/

namespace TensorGraph

open Onnx Position

variable {layout : Layout} {sizes places is : List Nat} {index : List (List Nat)}
  {i k memory size : Nat} {x : Scalar} {xs data : List Scalar} {entries : List (Nat × Scalar)}

namespace Onnx

/-- The message is a sparse array of the sizes `sizes`, with the given values at the given places. -/
structure SparseMessage.Holds (m : SparseMessage) (sizes : List Nat) (values indices : Literal) :
    Prop where
  dims : m.dims = sizes.map fun d : Nat => (d : Int)
  values : m.values.toLiteral = .ok values
  indices : ∃ t, m.indices = some t ∧ t.toLiteral = .ok indices

end Onnx

/-- The array has the given shape and counts the places `is`. -/
structure Literal.Counts (a : Literal) (shape is : List Nat) : Prop where
  layout : countsPlaces a.layout = true
  shape : a.shape = shape
  data : a.data = is.map fun i : Nat => .int i

/-- The array has the sizes `sizes`, each of the values at its index and zeros at all others. -/
structure Literal.Spreads (a : Literal) (sizes : List Nat) (index : List (List Nat))
    (values : Literal) : Prop where
  layout : a.layout = values.layout
  shape : a.shape = sizes
  stored : ∀ (k : Nat) i x, index[k]? = some i → values.data[k]? = some x → a.get? i = some x
  elsewhere : ∀ i, Within sizes i → i ∉ index → a.get? i = some values.layout.zero

namespace Onnx

lemma length_scatter : (scatter data entries).length = data.length := by
  unfold scatter
  induction entries generalizing data with
  | nil => rfl
  | cons e entries ih => rw [List.foldl_cons, ih, List.length_set]

/-- Where nothing is put, the data stays. -/
lemma getElem?_scatter_of_not_mem (hi : i ∉ entries.map Prod.fst) :
    (scatter data entries)[i]? = data[i]? := by
  unfold scatter
  induction entries generalizing data with
  | nil => rfl
  | cons e entries ih =>
    rw [List.map_cons, List.mem_cons, not_or] at hi
    rw [List.foldl_cons, ih hi.2, List.getElem?_set_ne (Ne.symm hi.1)]

/-- What is put at a position stays there, if nothing else is put there. -/
lemma getElem?_scatter_of_mem (hnodup : (entries.map Prod.fst).Nodup) (hmem : (i, x) ∈ entries)
    (hi : i < data.length) : (scatter data entries)[i]? = some x := by
  unfold scatter
  induction entries generalizing data with
  | nil => simp at hmem
  | cons e entries ih =>
    rw [List.map_cons, List.nodup_cons] at hnodup
    rw [List.foldl_cons]
    rcases List.mem_cons.mp hmem with rfl | hmem
    · have hput : (data.set i x)[i]? = some x := List.getElem?_set_self hi
      rw [← hput]
      exact getElem?_scatter_of_not_mem hnodup.1
    · exact ih hnodup.2 hmem (by simpa using hi)

end Onnx

lemma mapM_toInt_natural (is : List Nat) : (is.map fun i : Nat => Scalar.int i).mapM Scalar.toInt =
    .ok (is.map fun i : Nat => (i : Int)) := by
  rw [← Scalar.mapM_toInt, List.map_map]
  rfl

lemma Literal.Counts.toInts {a : Literal} {shape : List Nat} (ha : a.Counts shape is) :
    a.toInts = .ok (is.map fun i : Nat => (i : Int)) := by
  rw [Literal.toInts, ha.data, mapM_toInt_natural]

lemma countsPlaces_iff : countsPlaces layout = true ↔
    ∃ width, 8 ≤ width ∧ (layout = .signed width ∨ layout = .unsigned width) := by
  cases layout <;> simp [countsPlaces]

lemma coordinatePosition_of_within {i : List Nat} (hi : Within sizes i) :
    coordinatePosition (sizes.map fun d : Nat => (d : Int)) (i.map fun j : Nat => (j : Int)) =
      .ok (ofIndex sizes i) := by
  have hsizes : (sizes.map fun d : Nat => (d : Int)).map Int.toNat = sizes := by
    simp [Function.comp_def]
  have hindex : (i.map fun j : Nat => (j : Int)).map Int.toNat = i := by simp [Function.comp_def]
  simp only [coordinatePosition, hsizes, hindex]
  exact if_pos ⟨by simp, hi⟩

/-- The rows of a matrix of coordinates are their positions. -/
lemma coordinatePositions_of_within {a : Literal}
    (ha : a.Counts [index.length, sizes.length] index.flatten) (hsizes : sizes ≠ [])
    (hrank : sizes.length ≤ maxCoordinates) (hwithin : ∀ i ∈ index, Within sizes i) :
    coordinatePositions (sizes.map fun d : Nat => (d : Int)) sizes.length a =
      .ok (index.map (ofIndex sizes)) := by
  have hrows : ∀ row ∈ index.map fun i => i.map fun j : Nat => Scalar.int j,
      row.length = sizes.length := by
    intro row hrow
    obtain ⟨i, hi, rfl⟩ := List.mem_map.mp hrow
    rw [List.length_map, (within_iff.mp (hwithin i hi)).length_eq]
  have hparts : a.parts.map Literal.data = index.map fun i => i.map fun j : Nat => Scalar.int j :=
    Literal.map_data_parts (by rw [ha.shape, List.length_map]) (by rw [ha.data, List.map_flatten]) hrows
  let position (xs : List Scalar) : Except Error Nat := do
    coordinatePosition (sizes.map fun d : Nat => (d : Int)) (← xs.mapM Scalar.toInt)
  have hpositions : a.parts.mapM (fun row : Literal => position row.data) =
      .ok (index.map (ofIndex sizes)) := by
    rw [← Function.comp_def position Literal.data, ← List.mapM_map, hparts, List.mapM_map]
    refine Except.mapM_eq_ok_map fun i hi => ?_
    simp only [Function.comp_apply, position, mapM_toInt_natural, Except.ok_bind]
    exact coordinatePosition_of_within (hwithin i hi)
  have hwidth : ¬ (sizes.length = 0 ∨ sizes.length ≠ (sizes.map fun d : Nat => (d : Int)).length ∨
      maxCoordinates < sizes.length) := by
    simp [hsizes, hrank]
  unfold coordinatePositions
  rw [if_neg hwidth]
  obtain ⟨width, -, hlayout | hlayout⟩ := countsPlaces_iff.mp ha.layout
  all_goals
    rw [hlayout]
    exact hpositions

lemma bmod_of_lt (hk : k < 2 ^ 63) : Int.bmod k (2 ^ 64) = k := by
  refine bmod_word ?_
  rw [Size.isSigned, decide_eq_true_eq]
  omega

lemma linearPosition_of_lt (hk : k < size) : linearPosition size k = .ok k := by
  simp [linearPosition, hk, Int.not_lt.mpr (Int.natCast_nonneg k)]

/-- Row-major positions are read as they are. -/
lemma toPositions_of_lt {a : Literal} {shape : List Nat} (ha : a.Counts shape places)
    (hplaces : ∀ i ∈ places, i < 2 ^ 63) :
    toPositions a = .ok (places.map fun i : Nat => (i : Int)) := by
  have hwords : (places.map fun i : Nat => (i : Int)).map (fun i => Int.bmod i (2 ^ 64)) =
      places.map fun i : Nat => (i : Int) := by
    rw [List.map_map]
    refine List.map_congr_left fun i hi => ?_
    rw [Function.comp_apply, bmod_of_lt (hplaces i hi)]
  rw [toPositions, ha.toInts, Except.ok_bind, hwords]
  rfl

lemma mapM_linearPosition (hplaces : ∀ i ∈ places, i < size) :
    (places.map fun i : Nat => (i : Int)).mapM (linearPosition size) = .ok places := by
  rw [List.mapM_map]
  have hread := Except.mapM_eq_ok_map (f := linearPosition size ∘ fun i : Nat => (i : Int)) (g := id)
    fun i hi => linearPosition_of_lt (hplaces i hi)
  rwa [List.map_id] at hread

section Entries

variable {a values : Literal} (hvalues : values.shape = [index.length])
  (hwithin : ∀ i ∈ index, Within sizes i)

include hvalues hwithin

/-- Coordinates give each value its place. -/
lemma entries_of_coordinates (ha : a.Counts [index.length, sizes.length] index.flatten)
    (hsizes : sizes ≠ []) (hrank : sizes.length ≤ maxCoordinates) :
    Onnx.entries (sizes.map fun d : Nat => (d : Int)) size a values =
      .ok ((index.map (ofIndex sizes)).zip values.data) := by
  simp only [Onnx.entries, ha.shape, spreadValues, Literal.spread?_self hvalues,
    coordinatePositions_of_within ha hsizes hrank hwithin, Except.ok_bind]
  rfl

/-- Row-major positions give each value its place. -/
lemma entries_of_positions {dims : List Int}
    (ha : a.Counts [index.length] (index.map (ofIndex sizes))) (hsize : sizes.prod ≤ 2 ^ 63) :
    Onnx.entries dims sizes.prod a values = .ok ((index.map (ofIndex sizes)).zip values.data) := by
  have hplaces : ∀ i ∈ index.map (ofIndex sizes), i < sizes.prod := by
    intro i hi
    obtain ⟨j, hj, rfl⟩ := List.mem_map.mp hi
    exact ofIndex_lt (hwithin j hj)
  have hlayout : a.layout ≠ .bool := by
    obtain ⟨width, -, hlayout | hlayout⟩ := countsPlaces_iff.mp ha.layout <;> simp [hlayout]
  have hpositions := toPositions_of_lt ha fun i hi => Nat.lt_of_lt_of_le (hplaces i hi) hsize
  simp only [Onnx.entries, ha.shape, if_neg hlayout, ha.layout, Bool.not_true, Bool.false_eq_true,
    if_false, spreadValues, Literal.spread?_self hvalues, hpositions, Except.ok_bind,
    mapM_linearPosition hplaces]
  rfl

end Entries

/-! ## The array -/

/-- An array of zeros into which values are put. -/
def Onnx.scattered (layout : Layout) (sizes : List Nat) (entries : List (Nat × Scalar)) : Literal where
  layout := layout
  shape := sizes
  data := scatter (List.replicate sizes.prod layout.zero) entries
  length_data := by rw [length_scatter, List.length_replicate]

/-- Indices have positions of their own. -/
lemma ofIndex_inj {i j : List Nat} (hi : Within sizes i) (hj : Within sizes j)
    (h : ofIndex sizes i = ofIndex sizes j) : i = j := by
  rw [← toIndex_ofIndex hi, h, toIndex_ofIndex hj]

/-- Values that are put at indices stand there, and zeros at all others. -/
lemma spreads_scattered {values : Literal} (hvalues : values.shape = [index.length])
    (hwithin : ∀ i ∈ index, Within sizes i) (hnodup : index.Nodup) :
    (scattered values.layout sizes ((index.map (ofIndex sizes)).zip values.data)).Spreads sizes index
      values := by
  have hlength : (index.map (ofIndex sizes)).length = values.data.length := by
    rw [List.length_map, values.length_data, hvalues, List.prod_singleton]
  have hplaces : ((index.map (ofIndex sizes)).zip values.data).map Prod.fst =
      index.map (ofIndex sizes) := List.map_fst_zip (Nat.le_of_eq hlength)
  have hget : ∀ i, Within sizes i →
      (scattered values.layout sizes ((index.map (ofIndex sizes)).zip values.data)).get? i =
        (scatter (List.replicate sizes.prod values.layout.zero)
          ((index.map (ofIndex sizes)).zip values.data))[ofIndex sizes i]? := fun i hi => if_pos hi
  refine ⟨rfl, rfl, fun k i x hk hx => ?_, fun i hi hnot => ?_⟩
  · have hi := hwithin i (List.mem_of_getElem? hk)
    rw [hget i hi]
    refine getElem?_scatter_of_mem ?_ (List.mem_of_getElem? (i := k) ?_) ?_
    · rw [hplaces]
      exact hnodup.map_on fun i hi j hj => ofIndex_inj (hwithin i hi) (hwithin j hj)
    · rw [List.getElem?_zip_eq_some]
      exact ⟨by rw [List.getElem?_map, hk]; rfl, hx⟩
    · rw [List.length_replicate]
      exact ofIndex_lt hi
  · rw [hget i hi, getElem?_scatter_of_not_mem, List.getElem?_replicate, if_pos (ofIndex_lt hi)]
    rw [hplaces, List.mem_map]
    rintro ⟨j, hj, heq⟩
    exact hnot (ofIndex_inj (hwithin j hj) hi heq ▸ hj)

/-- Elements of files take up bytes, and no bits at all are the number zero in every type but one. -/
lemma DataType.zero_layout : ∀ type ∈ DataType.all, 0 < type.layout.size ∧
    (type.layout = .float DataType.float8e8m0fnu ∨ type.layout.zero.equals 0 = true) := by
  decide +kernel

lemma wrappedProduct_natural (hsmall : sizes.prod < 2 ^ 63) :
    wrappedProduct (sizes.map fun d : Nat => (d : Int)) = sizes.prod := by
  rw [wrappedProduct_eq, ← Nat.cast_list_prod, bmod_of_lt hsmall]

lemma isCountable_of_pos (hpos : ∀ d ∈ sizes, 0 < d) (hcount : layout.size * sizes.prod < 2 ^ 63) :
    Literal.isCountable layout sizes = true ∧ Literal.isCountable layout [sizes.prod] = true := by
  have hprod : 0 < sizes.prod := List.prod_pos hpos
  have hsizes : sizes.filter (· ≠ 0) = sizes :=
    List.filter_eq_self.mpr fun d hd => by simpa using Nat.ne_of_gt (hpos d hd)
  have hone : [sizes.prod].filter (· ≠ 0) = [sizes.prod] := by simpa using Nat.ne_of_gt hprod
  simp only [Literal.isCountable, hsizes, hone, List.prod_singleton, decide_eq_true_eq]
  exact ⟨hcount, hcount⟩

/-- There are fewer elements than the bytes that can be counted. -/
lemma prod_lt_of_countable (hlayout : 0 < layout.size) (hcount : layout.size * sizes.prod < 2 ^ 63) :
    sizes.prod < 2 ^ 63 :=
  Nat.lt_of_le_of_lt (Nat.le_mul_of_pos_left _ hlayout) hcount

/-- A message gives an array of zeros with its entries, if it can be allocated. -/
lemma SparseMessage.toLiteralWithin_of_entries {m : SparseMessage} {values indices : Literal}
    (hm : m.Holds sizes values indices) (hpos : ∀ d ∈ sizes, 0 < d)
    (hrank : sizes.length ≤ Literal.maxRank) (hlayout : 0 < values.layout.size)
    (hcount : values.layout.size * sizes.prod < 2 ^ 63)
    (hfits : values.layout.size * sizes.prod ≤ memory)
    (hentries : Onnx.entries m.dims sizes.prod indices values = .ok entries) :
    m.toLiteralWithin memory = .ok (scattered values.layout sizes entries) := by
  obtain ⟨t, ht, hindices⟩ := hm.indices
  obtain ⟨hsizes, hprod⟩ := isCountable_of_pos hpos hcount
  have hsize : wrappedProduct m.dims = sizes.prod := by
    rw [hm.dims, wrappedProduct_natural (prod_lt_of_countable hlayout hcount)]
  have hcountable : ¬ ((sizes.prod : Int) < 0 ∨
      (! Literal.isCountable values.layout [sizes.prod]) = true) := by
    rintro (hneg | hlarge)
    · exact Int.not_lt.mpr (Int.natCast_nonneg _) hneg
    · simp [hprod] at hlarge
  unfold SparseMessage.toLiteralWithin
  simp only [hm.values, Except.ok_bind, hsize, if_neg hcountable, Int.toNat_natCast,
    if_neg (Nat.not_lt.mpr hfits), ht, hindices, hentries]
  rw [hm.dims]
  exact Literal.ofDims_natural hrank (scattered values.layout sizes entries).length_data hsizes

/-- A sparse array that gives its values at coordinates is read as the array of its sizes that has each
value at its index and zeros at all others, if it has no more axes than coordinates may have, its bytes
can be counted by a signed word, and that many can be allocated. One that gives the same values at the
row-major positions of these indices is read as the same array. -/
theorem SparseMessage.toLiteralWithin_coordinates {m : SparseMessage} {values coordinates : Literal}
    (hm : m.Holds sizes values coordinates)
    (hcoordinates : coordinates.Counts [index.length, sizes.length] index.flatten)
    (hvalues : values.shape = [index.length]) (hwithin : ∀ i ∈ index, Within sizes i)
    (hnodup : index.Nodup) (hsizes : sizes ≠ []) (hpos : ∀ d ∈ sizes, 0 < d)
    (hrank : sizes.length ≤ maxCoordinates) (hcount : values.layout.size * sizes.prod < 2 ^ 63)
    (hfits : values.layout.size * sizes.prod ≤ memory) :
    ∃ a, m.toLiteralWithin memory = .ok a ∧ a.Spreads sizes index values ∧
      (values.layout = .float DataType.float8e8m0fnu ∨ values.layout.zero.equals 0 = true) ∧
      ∀ (m' : SparseMessage) (positions : Literal), m'.Holds sizes values positions →
        positions.Counts [index.length] (index.map (ofIndex sizes)) →
          m'.toLiteralWithin memory = .ok a := by
  obtain ⟨type, htype, hlayout⟩ := (TensorMessage.toLiteral_ok hm.values).1
  obtain ⟨hbytes, hzero⟩ := DataType.zero_layout type htype
  rw [← hlayout] at hbytes hzero
  have hrank' : sizes.length ≤ Literal.maxRank := Nat.le_trans hrank (by decide)
  have hprod : sizes.prod ≤ 2 ^ 63 := Nat.le_of_lt (prod_lt_of_countable hbytes hcount)
  refine ⟨scattered values.layout sizes ((index.map (ofIndex sizes)).zip values.data), ?_,
    spreads_scattered hvalues hwithin hnodup, hzero, fun m' positions hm' hpositions => ?_⟩
  · refine toLiteralWithin_of_entries hm hpos hrank' hbytes hcount hfits ?_
    rw [hm.dims]
    exact entries_of_coordinates hvalues hwithin hcoordinates hsizes hrank
  · exact toLiteralWithin_of_entries hm' hpos hrank' hbytes hcount hfits
      (entries_of_positions hvalues hwithin hpositions hprod)

/-- A sparse array of signed words, whose places are the numbers `places`, in an array of the sizes
`shape`. -/
def Onnx.SparseMessage.ofInts (dims values shape places : List Int) : SparseMessage where
  values := { dataType := 7, dims := [values.length], int64s := values }
  indices := some { dataType := 7, dims := shape, int64s := places }
  dims := dims

theorem SparseMessage.toLiteralWithin_coordinates_twoEntries :
    ∃ a, (SparseMessage.ofInts [2, 3] [5, 6] [2, 2] [1, 2, 0, 1]).toLiteralWithin 48 = .ok a ∧
      a.Spreads [2, 3] [[1, 2], [0, 1]] (.vector (.signed 64) [.int 5, .int 6]) ∧
      (SparseMessage.ofInts [2, 3] [5, 6] [2] [5, 1]).toLiteralWithin 48 = .ok a := by
  have hm : (SparseMessage.ofInts [2, 3] [5, 6] [2, 2] [1, 2, 0, 1]).Holds [2, 3]
      (.vector (.signed 64) [.int 5, .int 6])
      ⟨.signed 64, [2, 2], [.int 1, .int 2, .int 0, .int 1], rfl⟩ := ⟨rfl, rfl, _, rfl, rfl⟩
  have hm' : (SparseMessage.ofInts [2, 3] [5, 6] [2] [5, 1]).Holds [2, 3]
      (.vector (.signed 64) [.int 5, .int 6]) (.vector (.signed 64) [.int 5, .int 1]) :=
    ⟨rfl, rfl, _, rfl, rfl⟩
  have hwithin : ∀ i ∈ [[1, 2], [0, 1]], Within [2, 3] i := by decide
  have hfits : (Layout.signed 64).size * [2, 3].prod ≤ 48 := by decide
  obtain ⟨a, ha, hspreads, -, hpositions⟩ := toLiteralWithin_coordinates hm ⟨rfl, rfl, rfl⟩ rfl hwithin
    (by decide) (by decide) (by decide) (by decide) (by decide) hfits
  exact ⟨a, ha, hspreads, hpositions _ _ hm' ⟨rfl, rfl, rfl⟩⟩

/-- With one axis more than coordinates may have, the first of all places can only be given by its
position. An array of all the bytes that can be counted is not allocated. -/
theorem SparseMessage.not_toLiteralWithin_coordinates_manyAxes :
    let places : Literal := ⟨.signed 64, [1, 64], List.replicate 64 (.int 0), by simp⟩
    let value : Literal := .vector (.signed 64) [.int 5]
    let ones : List Int := List.replicate 64 1
    (∃ m : SparseMessage, m.Holds (List.replicate 64 1) value places ∧
      places.Counts [1, 64] (List.replicate 64 0) ∧
      Within (List.replicate 64 1) (List.replicate 64 0) ∧ m.toLiteral = badValue) ∧
    (∃ a, (SparseMessage.ofInts ones [5] [1] [0]).toLiteral = .ok a ∧
      a.shape = List.replicate 64 1 ∧ a.data = [.int 5]) ∧
    ∃ m : SparseMessage, m.Holds [2 ^ 59] value ⟨.signed 64, [1, 1], [.int 0], rfl⟩ ∧
      m.toLiteral = .error (.fault .arrayTooLarge) := by
  refine ⟨⟨.ofInts (List.replicate 64 1) [5] [1, 64] (List.replicate 64 0), ?_, ?_, ?_, ?_⟩,
    Except.exists_ok (by decide +kernel), .ofInts [2 ^ 59] [5] [1, 1] [0], ?_, by decide +kernel⟩
  · exact ⟨by decide, rfl, _, rfl, by decide +kernel⟩
  · exact ⟨rfl, rfl, by decide⟩
  · decide
  · decide +kernel
  · exact ⟨by simp [SparseMessage.ofInts], rfl, _, rfl, rfl⟩

end TensorGraph
