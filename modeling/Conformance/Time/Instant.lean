/-!
Points in time, in seconds since 1970-01-01T00:00:00Z, and their calendar dates. A leap second is
the part of a second from 10⁹ nanoseconds on. Dates follow the Gregorian calendar in all years.
-/
namespace Conformance.Time

structure Instant where
  seconds : Int
  nanos : Nat
  deriving DecidableEq, Repr, Inhabited

structure Date where
  year : Int
  month : Nat
  day : Nat
  deriving DecidableEq, Repr

def isLeapYear (year : Int) : Bool := year % 4 == 0 && (year % 100 != 0 || year % 400 == 0)

def daysInMonth (year : Int) (month : Nat) : Nat :=
  if month = 2 then (if isLeapYear year then 29 else 28)
  else if month = 4 ∨ month = 6 ∨ month = 9 ∨ month = 11 then 30
  else 31

def Date.Valid (d : Date) : Prop :=
  1 ≤ d.month ∧ d.month ≤ 12 ∧ 1 ≤ d.day ∧ d.day ≤ daysInMonth d.year d.month

instance (d : Date) : Decidable d.Valid := by unfold Date.Valid; infer_instance

/-- Days since 1970-01-01. Years are counted from March, so that a leap day ends its year, and
in cycles of 400 years, or 146097 days. -/
def Date.toDays (d : Date) : Int :=
  let year := if d.month ≤ 2 then d.year - 1 else d.year
  let cycle := year / 400
  let yearOfCycle := year - cycle * 400
  let month := (d.month + 9) % 12
  let dayOfYear : Int := (153 * month + 2) / 5 + d.day - 1
  let dayOfCycle := yearOfCycle * 365 + yearOfCycle / 4 - yearOfCycle / 100 + dayOfYear
  cycle * 146097 + dayOfCycle - 719468

def Date.ofDays (days : Int) : Date :=
  let shifted := days + 719468
  let cycle := shifted / 146097
  let dayOfCycle := shifted - cycle * 146097
  let yearOfCycle :=
    (dayOfCycle - dayOfCycle / 1460 + dayOfCycle / 36524 - dayOfCycle / 146096) / 365
  let dayOfYear := (dayOfCycle - (365 * yearOfCycle + yearOfCycle / 4 - yearOfCycle / 100)).toNat
  let month := (5 * dayOfYear + 2) / 153
  let day := dayOfYear - (153 * month + 2) / 5 + 1
  let year := yearOfCycle + cycle * 400
  if month < 10 then ⟨year, month + 3, day⟩ else ⟨year + 1, month - 9, day⟩

def nanosPerSecond : Nat := 1000000000

namespace Instant

def ofNanos (n : Nat) : Instant := ⟨n / nanosPerSecond, n % nanosPerSecond⟩

def date (t : Instant) : Date := .ofDays (t.seconds / 86400)

def secondOfDay (t : Instant) : Nat := (t.seconds % 86400).toNat

def hour (t : Instant) : Nat := t.secondOfDay / 3600

def minute (t : Instant) : Nat := t.secondOfDay / 60 % 60

/-- Sixty in a leap second. -/
def second (t : Instant) : Nat := t.secondOfDay % 60 + t.nanos / nanosPerSecond

def subsecond (t : Instant) : Nat := t.nanos % nanosPerSecond

/-- Whole seconds from `start` to `finish`, without the fraction. -/
def secondsBetween (start finish : Instant) : Int :=
  ((finish.seconds - start.seconds) * nanosPerSecond + finish.nanos - start.nanos).tdiv
    nanosPerSecond

end Instant

end Conformance.Time
