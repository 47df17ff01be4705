import Conformance.Text.Blank
import Conformance.Time.Stamp

/-!
Reading RFC 3339 times, with some tolerance: numbers may be shorter than usual and have white space
before them, a year of any length has a sign, the time may follow after a space, and the offset zero
may be written `Z` or `UTC`. White space may follow.
-/
namespace Conformance.Time

/-! A part of a time is read from the front of a text, and gives what is left of it. -/

namespace Scan

def isDigit (c : Char) : Bool := '0' ≤ c && c ≤ '9'

def skipBlanks (cs : List Char) : List Char := cs.dropWhile Text.isBlank

def value (digits : List Char) : Nat := Nat.ofDigitChars 10 digits 0

/-- A number of at least one digit and at most `width`. -/
def number (width : Nat) (cs : List Char) : Option (Nat × List Char) :=
  let digits := (cs.take width).takeWhile isDigit
  if digits.isEmpty then none else some (value digits, cs.drop digits.length)

def item (width : Nat) (cs : List Char) : Option (Nat × List Char) := number width (skipBlanks cs)

/-- Four digits at most, unless there is a sign. -/
def year (cs : List Char) : Option (Int × List Char) :=
  match skipBlanks cs with
  | '-' :: rest => (number rest.length rest).map fun (n, cs) => (-(n : Int), cs)
  | '+' :: rest => (number rest.length rest).map fun (n, cs) => ((n : Int), cs)
  | cs => (number 4 cs).map fun (n, cs) => ((n : Int), cs)

/-- A sign that may have white space before it. -/
def sign (c : Char) (cs : List Char) : Option (List Char) :=
  match skipBlanks cs with
  | d :: rest => if d = c then some rest else none
  | [] => none

def date (cs : List Char) : Option (Date × List Char) := do
  let (y, cs) ← year cs
  let (m, cs) ← item 2 (← sign '-' cs)
  let (d, cs) ← item 2 (← sign '-' cs)
  return (⟨y, m, d⟩, cs)

/-- Nanoseconds from the decimals of a second, of which nine count. -/
def decimals (cs : List Char) : Option (Nat × List Char) :=
  match cs with
  | '.' :: rest =>
    let digits := rest.takeWhile isDigit
    let used := digits.take 9
    if used.isEmpty then none
    else some (value used * Nat.pow 10 (9 - used.length), rest.drop digits.length)
  | cs => some (0, cs)

/-- Seconds of the day and nanoseconds; second 60 is a leap second. -/
def time (cs : List Char) : Option ((Nat × Nat) × List Char) := do
  let (h, cs) ← item 2 cs
  let (m, cs) ← item 2 (← sign ':' cs)
  let (s, cs) ← item 2 (← sign ':' cs)
  let (n, cs) ← decimals cs
  if 23 < h ∨ 59 < m ∨ 60 < s then none
  else if s = 60 then return (((h * 60 + m) * 60 + 59, n + nanosPerSecond), cs)
  else return (((h * 60 + m) * 60 + s, n), cs)

def twoDigits (cs : List Char) : Option (Nat × List Char) :=
  match cs with
  | a :: b :: rest => if isDigit a && isDigit b then some (value [a, b], rest) else none
  | _ => none

/-- Seconds east of Greenwich, less than a day. -/
def offset (cs : List Char) : Option (Int × List Char) := do
  match skipBlanks cs with
  | 'Z' :: rest => return (0, rest)
  | 'z' :: rest => return (0, rest)
  | u :: t :: c :: rest =>
    if [u, t, c].map Char.toUpper = ['U', 'T', 'C'] then return (0, rest)
    let factor : Int ←
      if u = '+' then some 1 else if u = '-' ∨ u = '\u2212' then some (-1) else none
    let (h, cs) ← twoDigits (t :: c :: rest)
    let (m, cs) ← twoDigits (cs.dropWhile fun c => c == ':' || Text.isBlank c)
    if 23 < h ∨ 59 < m then none else return (factor * (h * 60 + m) * 60, cs)
  | _ => none

def isDateEnd (c : Char) : Bool := c == 'T' || c == 't' || c == ' '

end Scan

/-- The years that have dates. -/
def isYear (y : Int) : Bool := -262143 ≤ y && y ≤ 262142

def Instant.parse? (text : String) : Option Instant := do
  let (d, cs) ← Scan.date text.toList
  match cs with
  | [] => none
  | c :: cs =>
    if !Scan.isDateEnd c || !isYear d.year || !decide d.Valid then none
    let ((seconds, nanos), cs) ← Scan.time cs
    let (east, cs) ← Scan.offset cs
    let t : Instant := ⟨d.toDays * 86400 + seconds - east, nanos⟩
    if (Scan.skipBlanks cs).isEmpty && isYear t.date.year then return t else none

end Conformance.Time
