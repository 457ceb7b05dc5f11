import TensorGraph.Power

/-!
# Row-major positions

The place of an index in the list of an array's elements, and back. Indices within the dimensions
and positions below their product correspond (`toIndex_ofIndex`, `ofIndex_toIndex`).
-/

namespace TensorGraph.Position

/-- The position of an index in an array of the given dimensions. -/
def ofIndex : List Nat → List Nat → Nat
  | _ :: dims, i :: index => i * dims.prod + ofIndex dims index
  | _, _ => 0

/-- The index at a position of an array of the given dimensions. -/
def toIndex : List Nat → Nat → List Nat
  | [], _ => []
  | _ :: dims, k => k / dims.prod :: toIndex dims (k % dims.prod)

/-- Whether the index has one entry for each dimension, below that dimension. -/
def Within : List Nat → List Nat → Prop
  | [], [] => True
  | d :: dims, i :: index => i < d ∧ Within dims index
  | _, _ => False

instance Within.decide : (dims index : List Nat) → Decidable (Within dims index)
  | [], [] => isTrue trivial
  | d :: dims, i :: index =>
    have := Within.decide dims index
    inferInstanceAs (Decidable (i < d ∧ Within dims index))
  | [], _ :: _ => isFalse id
  | _ :: _, [] => isFalse id

theorem ofIndex_lt {dims index : List Nat} (h : Within dims index) :
    ofIndex dims index < dims.prod := by
  induction dims generalizing index with
  | nil => cases index <;> simp_all [ofIndex, Within]
  | cons d dims ih =>
    cases index with
    | nil => simp [Within] at h
    | cons i index =>
      obtain ⟨hi, hrest⟩ := h
      have := ih hrest
      simp only [ofIndex, List.prod_cons]
      calc i * dims.prod + ofIndex dims index
          < i * dims.prod + dims.prod := by omega
        _ = (i + 1) * dims.prod := by rw [Nat.add_mul, Nat.one_mul]
        _ ≤ d * dims.prod := Nat.mul_le_mul_right _ hi

theorem toIndex_ofIndex {dims index : List Nat} (h : Within dims index) :
    toIndex dims (ofIndex dims index) = index := by
  induction dims generalizing index with
  | nil => cases index <;> simp_all [toIndex, Within]
  | cons d dims ih =>
    cases index with
    | nil => simp [Within] at h
    | cons i index =>
      obtain ⟨_, hrest⟩ := h
      have hlt := ofIndex_lt hrest
      have hpos : 0 < dims.prod := by omega
      simp only [toIndex, ofIndex]
      rw [Nat.mul_comm i, Nat.mul_add_div hpos, Nat.div_eq_of_lt hlt, Nat.mul_add_mod,
        Nat.mod_eq_of_lt hlt, ih hrest, Nat.add_zero]

theorem within_toIndex {dims : List Nat} {k : Nat} (h : k < dims.prod) :
    Within dims (toIndex dims k) := by
  induction dims generalizing k with
  | nil => trivial
  | cons d dims ih =>
    rw [List.prod_cons] at h
    have hpos : 0 < dims.prod := Nat.pos_of_ne_zero fun h0 => by simp [h0] at h
    exact ⟨(Nat.div_lt_iff_lt_mul hpos).2 h, ih (Nat.mod_lt _ hpos)⟩

theorem ofIndex_toIndex {dims : List Nat} {k : Nat} (h : k < dims.prod) :
    ofIndex dims (toIndex dims k) = k := by
  induction dims generalizing k with
  | nil => simp at h; simp [ofIndex, h]
  | cons d dims ih =>
    rw [List.prod_cons] at h
    have hpos : 0 < dims.prod := Nat.pos_of_ne_zero fun h0 => by simp [h0] at h
    simp only [toIndex, ofIndex, ih (Nat.mod_lt k hpos)]
    rw [Nat.mul_comm, Nat.div_add_mod]

end TensorGraph.Position
