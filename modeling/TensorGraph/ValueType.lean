import TensorGraph.ElementType
import TensorGraph.Size

/-!
# Types of values

The types of the values on a graph's edges.
-/

namespace TensorGraph

/-- The type of a value. -/
inductive ValueType where
  /-- A tensor with `dim` axes; `shape` has their sizes, if they are known. -/
  | tensor (element : ElementType) (dim : Size) (shape : Option (List Size))
  | scalar (element : ElementType)
  /-- The sizes of `rank` axes, as a vector. -/
  | shape (rank : Size)
deriving DecidableEq, Repr

namespace ValueType

instance : Inhabited ValueType := ⟨.tensor .float32 0 none⟩

/-- The type of the elements; sizes are wide integers. -/
def element : ValueType → ElementType
  | tensor t _ _ => t
  | scalar t => t
  | shape _ => .int64

/-- The number of axes. -/
def rank : ValueType → Size
  | tensor _ dim _ => dim
  | scalar _ => 0
  | shape _ => 1

/-- The sizes of the axes, if they are known. -/
def dims? : ValueType → Option (List Size)
  | tensor _ _ dims => dims
  | scalar _ => some []
  | shape rank => some [rank]

def isTensor : ValueType → Bool
  | tensor _ _ _ => true
  | _ => false

/-- The type of values with `rank` axes: a scalar if there are none. -/
def ofRank (t : ElementType) (rank : Size) (dims : Option (List Size)) : ValueType :=
  if rank.equals 0 then scalar t else tensor t rank dims

@[simp] theorem element_ofRank (t : ElementType) (r : Size) (dims : Option (List Size)) :
    (ofRank t r dims).element = t := by
  unfold ofRank; split <;> rfl

@[simp] theorem rank_ofRank (t : ElementType) (r : Int) (dims : Option (List Size)) :
    (ofRank t (.whole r) dims).rank = .whole r := by
  unfold ofRank
  split
  · next h =>
    have h : r = 0 := of_decide_eq_true h
    rw [h]
    rfl
  · rfl

end ValueType

end TensorGraph
