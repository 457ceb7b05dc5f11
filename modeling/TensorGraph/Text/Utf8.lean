/-!
# UTF-8

Text from bytes, read strictly or with the parts dropped that are no UTF-8.
-/

namespace TensorGraph.Utf8

/-- What a lead byte asks for: its payload, the range of the byte after it, and how many
continuation bytes follow in all. -/
structure Lead where
  payload : Nat
  low : Nat := 0x80
  high : Nat := 0xBF
  more : Nat

/-- The lead bytes of well-formed sequences: overlong forms, surrogates and code points past
U+10FFFF are shut out by the range of the second byte. -/
def lead? (b : Nat) : Option Lead :=
  if b < 0x80 then some { payload := b, more := 0 }
  else if b < 0xC2 then none
  else if b < 0xE0 then some { payload := b - 0xC0, more := 1 }
  else if b = 0xE0 then some { payload := 0, low := 0xA0, more := 2 }
  else if b = 0xED then some { payload := 0xD, high := 0x9F, more := 2 }
  else if b < 0xF0 then some { payload := b - 0xE0, more := 2 }
  else if b = 0xF0 then some { payload := 0, low := 0x90, more := 3 }
  else if b < 0xF4 then some { payload := b - 0xF0, more := 3 }
  else if b = 0xF4 then some { payload := 4, high := 0x8F, more := 3 }
  else none

/-- Reads the continuation bytes of a sequence. Gives its code point, if all are there, and the
bytes not read. -/
def follow (acc low high : Nat) : Nat → List UInt8 → Option Nat × List UInt8
  | 0, bs => (some acc, bs)
  | _ + 1, [] => (none, [])
  | n + 1, b :: bs =>
    if low ≤ b.toNat ∧ b.toNat ≤ high then follow (acc * 64 + (b.toNat - 0x80)) 0x80 0xBF n bs
    else (none, b :: bs)

theorem length_follow_le (acc low high n : Nat) (bs : List UInt8) :
    (follow acc low high n bs).2.length ≤ bs.length := by
  induction n generalizing acc low high bs with
  | zero => simp [follow]
  | succ n ih =>
    cases bs with
    | nil => simp [follow]
    | cons b bs =>
      unfold follow
      split
      · exact Nat.le_succ_of_le (ih _ _ _ bs)
      · simp

/-- The characters in turn, with `none` for each longest piece that begins a sequence and does not
end it, and for each byte that begins none. -/
def pieces : List UInt8 → List (Option Char)
  | [] => []
  | b :: bs =>
    match lead? b.toNat with
    | none => none :: pieces bs
    | some l =>
      let r := follow l.payload l.low l.high l.more bs
      r.1.map Char.ofNat :: pieces r.2
termination_by bs => bs.length
decreasing_by
  · simp
  · have := length_follow_le l.payload l.low l.high l.more bs
    simp only [List.length_cons]
    omega

/-- The text of the bytes, if all of them are UTF-8. -/
def decode? (bs : List UInt8) : Option String :=
  (pieces bs).mapM id |>.map String.ofList

/-- The text of the bytes without the pieces that are no UTF-8. -/
def decodeValid (bs : List UInt8) : String :=
  String.ofList ((pieces bs).filterMap id)

end TensorGraph.Utf8
