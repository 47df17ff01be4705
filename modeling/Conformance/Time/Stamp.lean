import Conformance.Time.Instant

/-!
Times as text: RFC 3339 with as many decimals of a second as are needed, in threes, and the short
stamp of log lines.
-/
namespace Conformance.Time

/-- At least `width` digits. -/
def padded (width n : Nat) : String :=
  let digits := Nat.toDigits 10 n
  String.ofList (List.replicate (width - digits.length) '0' ++ digits)

/-- Years from 0 to 9999 have four digits, others a sign as well. -/
def yearText (year : Int) : String :=
  if 0 ≤ year ∧ year ≤ 9999 then padded 4 year.toNat
  else (if year < 0 then "-" else "+") ++ padded 4 year.natAbs

def Date.text (d : Date) : String :=
  yearText d.year ++ "-" ++ padded 2 d.month ++ "-" ++ padded 2 d.day

namespace Instant

def timeText (t : Instant) : String :=
  padded 2 t.hour ++ ":" ++ padded 2 t.minute ++ ":" ++ padded 2 t.second

def subsecondText (t : Instant) : String :=
  let n := t.subsecond
  if n = 0 then ""
  else if n % 1000000 = 0 then "." ++ padded 3 (n / 1000000)
  else if n % 1000 = 0 then "." ++ padded 6 (n / 1000)
  else "." ++ padded 9 n

/-- RFC 3339 text with the given name of the offset zero. -/
def rfc3339 (zero : String) (t : Instant) : String :=
  t.date.text ++ "T" ++ t.timeText ++ t.subsecondText ++ zero

def monthNames : List String :=
  ["Jan", "Feb", "Mar", "Apr", "May", "Jun", "Jul", "Aug", "Sep", "Oct", "Nov", "Dec"]

/-- Month, day and time to the millisecond. -/
def logStamp (t : Instant) : String :=
  monthNames.getD (t.date.month - 1) "" ++ " " ++ padded 2 t.date.day ++ " " ++ t.timeText ++ "."
    ++ padded 3 (t.subsecond / 1000000)

end Instant

end Conformance.Time
