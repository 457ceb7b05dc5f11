import TensorGraph.Power

/-!
# The binary wire format

A message is a list of numbered fields. Every read takes at least one byte (`varint?_shorter`,
`tag?_shorter`), so that reading a message ends.
-/

namespace TensorGraph.Onnx.Wire

/-- What a field holds. -/
inductive Payload where
  | varint (value : Nat)
  | word64 (value : Nat)
  | bytes (content : List UInt8)
  | word32 (value : Nat)
deriving DecidableEq, Repr

/-- A field of a message. -/
structure Field where
  number : Nat
  payload : Payload
deriving DecidableEq, Repr

/-- A field, or one of the marks around a group of fields. -/
inductive Token where
  | field (f : Field)
  | openGroup (number : Nat)
  | closeGroup (number : Nat)
deriving DecidableEq, Repr

/-- Reads up to `limit` bytes, seven bits from each, the lowest first; the last one is below 128. -/
def varintWithin : Nat → List UInt8 → Option (Nat × List UInt8)
  | 0, _ => none
  | _ + 1, [] => none
  | limit + 1, b :: bs =>
    if b.toNat < 128 then some (b.toNat, bs)
    else (varintWithin limit bs).map fun (high, rest) => (b.toNat % 128 + 128 * high, rest)

/-- Reads an integer of at most ten bytes, of which 64 bits are kept. -/
def varint? (bs : List UInt8) : Option (Nat × List UInt8) :=
  (varintWithin 10 bs).map fun (value, rest) => (value % 2 ^ 64, rest)

theorem varintWithin_shorter {limit value : Nat} {bs rest : List UInt8}
    (h : varintWithin limit bs = some (value, rest)) : rest.length < bs.length := by
  induction limit generalizing value bs with
  | zero => simp [varintWithin] at h
  | succ limit ih =>
    cases bs with
    | nil => simp [varintWithin] at h
    | cons b bs =>
      rw [varintWithin] at h
      split at h
      · simp only [Option.some.injEq, Prod.mk.injEq] at h
        simp [h.2]
      · obtain ⟨⟨high, rest'⟩, hread, heq⟩ := Option.map_eq_some_iff.1 h
        simp only [Prod.mk.injEq] at heq
        obtain ⟨_, rfl⟩ := heq
        exact Nat.lt_succ_of_lt (ih hread)

theorem varint?_shorter {value : Nat} {bs rest : List UInt8}
    (h : varint? bs = some (value, rest)) : rest.length < bs.length := by
  obtain ⟨⟨v, r⟩, hread, heq⟩ := Option.map_eq_some_iff.1 h
  simp only [Prod.mk.injEq] at heq
  rw [← heq.2]
  exact varintWithin_shorter hread

/-- The number that bytes spell, the lowest first. -/
def littleEndian : List UInt8 → Nat
  | [] => 0
  | b :: bs => b.toNat + 256 * littleEndian bs

/-- Takes `n` bytes off. -/
def take? (n : Nat) (bs : List UInt8) : Option (List UInt8 × List UInt8) :=
  if n ≤ bs.length then some (bs.splitAt n) else none

theorem take?_le {n : Nat} {bs front rest : List UInt8} (h : take? n bs = some (front, rest)) :
    rest.length ≤ bs.length := by
  unfold take? at h
  split at h
  · simp only [List.splitAt_eq, Option.some.injEq, Prod.mk.injEq] at h
    rw [← h.2, List.length_drop]
    omega
  · simp at h

/-- Reads the number and the kind of a field: at most five bytes, of 32 bits. -/
def tag? (bs : List UInt8) : Option ((Nat × Nat) × List UInt8) :=
  match varintWithin 5 bs with
  | some (tag, rest) =>
    if 2 ^ 32 ≤ tag then none else some ((tag / 8, tag % 8), rest)
  | none => none

theorem tag?_shorter {bs rest : List UInt8} {t : Nat × Nat} (h : tag? bs = some (t, rest)) :
    rest.length < bs.length := by
  unfold tag? at h
  split at h
  · next tag rest' hread =>
    split at h
    · simp at h
    · simp only [Option.some.injEq, Prod.mk.injEq] at h
      rw [← h.2]
      exact varintWithin_shorter hread
  · simp at h

/-- Reads a length: at most five bytes, of 31 bits. -/
def length? (bs : List UInt8) : Option (Nat × List UInt8) :=
  (varintWithin 5 bs).bind fun (n, rest) => if n < 2 ^ 31 then some (n, rest) else none

theorem length?_shorter {n : Nat} {bs rest : List UInt8} (h : length? bs = some (n, rest)) :
    rest.length < bs.length := by
  obtain ⟨⟨v, r⟩, hread, hrest⟩ := Option.bind_eq_some_iff.1 h
  simp only at hrest
  split at hrest
  · simp only [Option.some.injEq, Prod.mk.injEq] at hrest
    rw [← hrest.2]
    exact varintWithin_shorter hread
  · simp at hrest

/-- Reads what follows a field's number and kind. -/
def payload? (number kind : Nat) (bs : List UInt8) : Option (Token × List UInt8) :=
  match kind with
  | 0 => (varint? bs).map fun (v, rest) => (.field ⟨number, .varint v⟩, rest)
  | 1 => (take? 8 bs).map fun (word, rest) => (.field ⟨number, .word64 (littleEndian word)⟩, rest)
  | 2 => (length? bs).bind fun (n, rest) =>
    (take? n rest).map fun (content, rest) => (.field ⟨number, .bytes content⟩, rest)
  | 3 => some (.openGroup number, bs)
  | 4 => some (.closeGroup number, bs)
  | 5 => (take? 4 bs).map fun (word, rest) => (.field ⟨number, .word32 (littleEndian word)⟩, rest)
  | _ => none

theorem payload?_le {number kind : Nat} {bs rest : List UInt8} {t : Token}
    (h : payload? number kind bs = some (t, rest)) : rest.length ≤ bs.length := by
  unfold payload? at h
  split at h
  · obtain ⟨p, hread, heq⟩ := Option.map_eq_some_iff.1 h
    simp only [Prod.mk.injEq] at heq
    exact heq.2 ▸ Nat.le_of_lt (varint?_shorter hread)
  · obtain ⟨p, hread, heq⟩ := Option.map_eq_some_iff.1 h
    simp only [Prod.mk.injEq] at heq
    exact heq.2 ▸ take?_le hread
  · obtain ⟨⟨n, rest'⟩, hread, hrest⟩ := Option.bind_eq_some_iff.1 h
    obtain ⟨p, htake, heq⟩ := Option.map_eq_some_iff.1 hrest
    simp only [Prod.mk.injEq] at heq
    have h1 := length?_shorter hread
    have h2 := take?_le htake
    rw [heq.2] at h2
    omega
  · simp at h; simp [h.2]
  · simp at h; simp [h.2]
  · obtain ⟨p, hread, heq⟩ := Option.map_eq_some_iff.1 h
    simp only [Prod.mk.injEq] at heq
    exact heq.2 ▸ take?_le hread
  · simp at h

/-- Reads all fields and marks. -/
def tokens? (bs : List UInt8) : Option (List Token) :=
  if bs = [] then some []
  else match _tag : tag? bs with
    | none => none
    | some ((number, kind), rest) =>
      match _payload : payload? number kind rest with
      | none => none
      | some (t, rest') => (tokens? rest').map (t :: ·)
termination_by bs.length
decreasing_by exact Nat.lt_of_le_of_lt (payload?_le _payload) (tag?_shorter _tag)

/-- The fields outside all groups. Every group must be closed by its own number; `groups` has those
that are open, of which there may be `depth` at once. Only inside a group may a number be zero. -/
def outside? (depth : Nat) (groups : List Nat) : List Token → Option (List Field)
  | [] => if groups = [] then some [] else none
  | .field f :: ts =>
    if groups ≠ [] then outside? depth groups ts
    else if f.number = 0 then none
    else (outside? depth groups ts).map (f :: ·)
  | .openGroup n :: ts =>
    if groups.length = depth ∨ (groups = [] ∧ n = 0) then none
    else outside? depth (n :: groups) ts
  | .closeGroup n :: ts =>
    match groups with
    | [] => none
    | m :: groups => if m = n then outside? depth groups ts else none

/-- The fields of a message. Groups are skipped; at most `depth` of them stand inside one
another. -/
def fields? (depth : Nat) (bs : List UInt8) : Option (List Field) :=
  (tokens? bs).bind (outside? depth [])

/-- Reads integers to the end of the bytes. -/
def varints? (bs : List UInt8) : Option (List Nat) :=
  if bs = [] then some []
  else match _read : varint? bs with
    | none => none
    | some (v, rest) => (varints? rest).map (v :: ·)
termination_by bs.length
decreasing_by exact varint?_shorter _read

/-- The bytes in pieces of `size`, to the end. -/
def pieces? (size : Nat) (bs : List UInt8) : Option (List (List UInt8)) :=
  match bs with
  | [] => some []
  | b :: bs =>
    match size with
    | 0 => none
    | size + 1 =>
      let piece := bs.take size
      if piece.length < size then none
      else (pieces? (size + 1) (bs.drop size)).map ((b :: piece) :: ·)
termination_by bs.length
decreasing_by
  rw [List.length_drop, List.length_cons]
  omega

/-- The numbers of `size` bytes each, to the end of the bytes. -/
def words? (size : Nat) (bs : List UInt8) : Option (List Nat) :=
  (pieces? size bs).map (·.map littleEndian)

/-- The signed integer in the low 32 bits. -/
def toInt32 (value : Nat) : Int := Int.bmod value (2 ^ 32)

/-- The signed integer in the low 64 bits. -/
def toInt64 (value : Nat) : Int := Int.bmod value (2 ^ 64)

end TensorGraph.Onnx.Wire
