/-!
Texts from bytes in UTF-8. A broken sequence is as long as a prefix of a sound one can be, and
counts as one place where no character can be read.
-/
namespace Conformance.Text

/-- The bytes that follow a leading byte: their number, the bits that the leading byte gives, and
the range of the first of them. -/
def leading? (b : Nat) : Option (Nat × Nat × Nat × Nat) :=
  if 0xc2 ≤ b ∧ b ≤ 0xdf then some (1, b - 0xc0, 0x80, 0xbf)
  else if b = 0xe0 then some (2, 0, 0xa0, 0xbf)
  else if b = 0xed then some (2, 0xd, 0x80, 0x9f)
  else if 0xe1 ≤ b ∧ b ≤ 0xef then some (2, b - 0xe0, 0x80, 0xbf)
  else if b = 0xf0 then some (3, 0, 0x90, 0xbf)
  else if 0xf1 ≤ b ∧ b ≤ 0xf3 then some (3, b - 0xf0, 0x80, 0xbf)
  else if b = 0xf4 then some (3, 4, 0x80, 0x8f)
  else none

/-- The code point that `bits` and `n` following bytes give, and the bytes after the sequence. -/
def following (low high : Nat) : Nat → Nat → List UInt8 → Option Nat × List UInt8
  | 0, bits, bs => (some bits, bs)
  | _ + 1, _, [] => (none, [])
  | n + 1, bits, b :: bs =>
    if low ≤ b.toNat ∧ b.toNat ≤ high then
      following 0x80 0xbf n (bits * 64 + (b.toNat - 0x80)) bs
    else (none, b :: bs)

theorem length_following_le (low high n bits : Nat) (bs : List UInt8) :
    (following low high n bits bs).2.length ≤ bs.length := by
  induction n generalizing low high bits bs with
  | zero => simp [following]
  | succ n ih =>
    cases bs with
    | nil => simp [following]
    | cons b bs =>
      unfold following
      split
      · exact Nat.le_succ_of_le (ih ..)
      · exact Nat.le_refl _

/-- The characters of the bytes, with nothing for each broken sequence. -/
def decodeFrom : List UInt8 → List (Option Char)
  | [] => []
  | b :: bs =>
    if b.toNat < 0x80 then some (Char.ofNat b.toNat) :: decodeFrom bs
    else match leading? b.toNat with
      | none => none :: decodeFrom bs
      | some (n, bits, low, high) =>
        (following low high n bits bs).1.map Char.ofNat ::
          decodeFrom (following low high n bits bs).2
termination_by bs => bs.length
decreasing_by
  · simp
  · simp
  · exact Nat.lt_succ_of_le (length_following_le ..)

/-- The text of sound bytes. -/
def ofUtf8? (bs : List UInt8) : Option String := do
  return String.ofList (← (decodeFrom bs).mapM id)

/-- The text of the bytes, with a replacement character for each broken sequence. -/
def ofUtf8Lossy (bs : List UInt8) : String :=
  String.ofList ((decodeFrom bs).map fun c => c.getD '\ufffd')

def toUtf8 (s : String) : List UInt8 := s.toUTF8.toList

end Conformance.Text
