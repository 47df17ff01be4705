import Conformance.Time.Stamp

/-!
Rounding of quotients, with a half going to the even neighbour: to a whole number, to the nearest
number with a binary fraction of 53 bits, and to decimals.
-/
namespace Conformance.Number

/-- The whole number nearest to `n / d`. -/
def roundDiv (n d : Nat) : Nat :=
  let q := n / d
  let r := n % d
  if 2 * r < d then q
  else if d < 2 * r then q + 1
  else if q % 2 = 0 then q else q + 1

/-- A quotient of natural numbers. -/
structure Quotient where
  num : Nat
  den : Nat

/-- The number with `shift` binary places that is nearest to a quotient. -/
def Quotient.roundTo (q : Quotient) (shift : Int) : Quotient :=
  match shift with
  | .ofNat s => ⟨roundDiv (q.num <<< s) q.den, 1 <<< s⟩
  | .negSucc s => ⟨roundDiv q.num (q.den <<< (s + 1)) <<< (s + 1), 1⟩

/-- Whether `q`, shifted to the left, has a whole part of 53 bits or more. -/
def Quotient.fills (q : Quotient) (shift : Int) : Bool :=
  match shift with
  | .ofNat s => q.den <<< 52 ≤ q.num <<< s
  | .negSucc s => q.den <<< (52 + s + 1) ≤ q.num

/-- The nearest number of 53 bits. -/
def Quotient.binary (q : Quotient) : Quotient :=
  if q.num = 0 then q
  else
    let shift : Int := 52 + (Nat.log2 q.den : Int) - (Nat.log2 q.num : Int)
    q.roundTo (if q.fills shift then shift else shift + 1)

/-- The quotient with so many decimals. -/
def Quotient.fixed (places : Nat) (q : Quotient) : String :=
  let unit := Nat.pow 10 places
  let n := roundDiv (q.num * unit) q.den
  toString (n / unit) ++ "." ++ Time.padded places (n % unit)

/-- Thousandths as a decimal number; both they and the quotient are taken to 53 bits first. -/
def thousandths (places n : Nat) : String :=
  let whole := Quotient.binary ⟨n, 1⟩
  (Quotient.binary ⟨whole.num, whole.den * 1000⟩).fixed places

end Conformance.Number
