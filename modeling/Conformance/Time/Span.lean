import Conformance.Time.Stamp

/-!
Lengths of time in nanoseconds, written in the largest unit that gives a whole part, with as many
decimals as are needed.
-/
namespace Conformance.Time

/-- `n` thousandths (or other parts, as many as `places` digits can count) without final zeros. -/
def decimalsText (places n : Nat) : String :=
  let digits := (padded places n).toList.reverse.dropWhile (· == '0')
  if digits.isEmpty then "" else "." ++ String.ofList digits.reverse

def spanText (nanos : Nat) : String :=
  if nanosPerSecond ≤ nanos then
    toString (nanos / nanosPerSecond) ++ decimalsText 9 (nanos % nanosPerSecond) ++ "s"
  else if 1000000 ≤ nanos then
    toString (nanos / 1000000) ++ decimalsText 6 (nanos % 1000000) ++ "ms"
  else if 1000 ≤ nanos then toString (nanos / 1000) ++ decimalsText 3 (nanos % 1000) ++ "µs"
  else toString nanos ++ "ns"

end Conformance.Time
