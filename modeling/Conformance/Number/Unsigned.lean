/-!
Reading unsigned numbers of 64 bits. Digits may have a plus sign before them. Of two faults the one
further left is found.
-/
namespace Conformance.Number

inductive NumeralFault where
  | empty
  | invalidDigit
  | tooLarge
  deriving DecidableEq, Repr

def NumeralFault.message : NumeralFault → String
  | empty => "cannot parse integer from empty string"
  | invalidDigit => "invalid digit found in string"
  | tooLarge => "number too large to fit in target type"

def digit? (c : Char) : Option Nat :=
  if '0' ≤ c ∧ c ≤ '9' then some (c.toNat - '0'.toNat) else none

/-- The number that `n` becomes with the digits after it. -/
def digitsFrom (n : Nat) : List Char → Except NumeralFault Nat
  | [] => .ok n
  | c :: rest =>
    match digit? c with
    | none => .error .invalidDigit
    | some d => if n * 10 + d < UInt64.size then digitsFrom (n * 10 + d) rest else .error .tooLarge

def parseUnsigned (s : String) : Except NumeralFault UInt64 :=
  match s.toList with
  | [] => .error .empty
  | ['+'] => .error .invalidDigit
  | '+' :: rest => (digitsFrom 0 rest).map UInt64.ofNat
  | digits => (digitsFrom 0 digits).map UInt64.ofNat

end Conformance.Number
