import TensorGraph.Error

/-!
# Places along a list

A negative place counts from the end.
-/

namespace TensorGraph.Place

variable {α : Type}

/-- The entry at a place. -/
def get (xs : List α) (i : Int) : Except Error α :=
  let k := if i < 0 then i + xs.length else i
  if k < 0 then outOfRange
  else match xs[k.toNat]? with
    | some x => .ok x
    | none => outOfRange

/-- How many entries stand before a place; places past either end are moved to that end. -/
def clamp (length : Nat) (i : Int) : Nat :=
  if i < 0 then (i + length).toNat else min i.toNat length

/-- The entries before a place. -/
def before (xs : List α) (i : Int) : List α := xs.take (clamp xs.length i)

/-- The entries from a place on. -/
def onward (xs : List α) (i : Int) : List α := xs.drop (clamp xs.length i)

/-- Puts an entry before a place. -/
def insert (xs : List α) (i : Int) (x : α) : List α := before xs i ++ x :: onward xs i

theorem before_append_onward (xs : List α) (i : Int) : before xs i ++ onward xs i = xs :=
  List.take_append_drop _ xs

theorem length_insert (xs : List α) (i : Int) (x : α) : (insert xs i x).length = xs.length + 1 := by
  have h := congrArg List.length (before_append_onward xs i)
  simp only [List.length_append] at h
  simp only [insert, List.length_append, List.length_cons]
  omega

end TensorGraph.Place
