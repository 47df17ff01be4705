import Conformance.Proofs.Text.Runs
import Conformance.Proofs.Time.Dates
import Conformance.Time.Rfc3339
import Mathlib.Algebra.GroupWithZero.Nat

/-!
RFC 3339 text is read back as the time it was written for: every number has digits that spell it,
every part ends where the next begins, and the date and the second of the day make up the second.
-/
namespace Conformance.Time

/-! Padded numbers -/

theorem toList_padded (width n : Nat) :
    (padded width n).toList =
      List.replicate (width - (Nat.toDigits 10 n).length) '0' ++ Nat.toDigits 10 n := by
  rw [padded, String.toList_ofList]

theorem length_padded {n : Nat} (width : Nat) (hwidth : 0 < width) (h : n < 10 ^ width) :
    (padded width n).toList.length = width := by
  have := (Nat.length_toDigits_le_iff (b := 10) (by decide) hwidth).2 h
  rw [toList_padded, List.length_append, List.length_replicate]
  omega

theorem padded_ne_nil (width n : Nat) : (padded width n).toList ≠ [] := by
  rw [toList_padded]
  exact List.append_ne_nil_of_right_ne_nil _ Nat.toDigits_ne_nil

namespace Scan

theorem isDigit_of_mem_padded {width n : Nat} {c : Char} (h : c ∈ (padded width n).toList) :
    isDigit c := by
  rw [toList_padded] at h
  rcases List.mem_append.1 h with hzero | hdigit
  · rw [List.eq_of_mem_replicate hzero]
    decide
  · exact Nat.isDigit_of_mem_toDigits (by decide) (by decide) hdigit

theorem value_padded (width n : Nat) : value (padded width n).toList = n := by
  rw [value, toList_padded, Nat.ofDigitChars_append, Nat.ofDigitChars_replicate_zero,
    Nat.mul_zero, Nat.ofDigitChars_ten_toDigits]

/-! Reading what follows -/

theorem skipBlanks_cons {c : Char} (h : Text.isBlank c = false) (rest : List Char) :
    skipBlanks (c :: rest) = c :: rest := by
  simp [skipBlanks, h]

theorem skipBlanks_padded (width n : Nat) (rest : List Char) :
    skipBlanks ((padded width n).toList ++ rest) = (padded width n).toList ++ rest := by
  obtain ⟨c, cs, hcs⟩ := List.exists_cons_of_ne_nil (padded_ne_nil width n)
  have hdigit : isDigit c := isDigit_of_mem_padded (hcs ▸ List.mem_cons_self)
  rw [hcs, List.cons_append, skipBlanks_cons (Text.not_isBlank_of_isDigit hdigit)]

/-- A padded number is read whole when it is no longer than it may be. -/
theorem number_padded {limit width n : Nat} (hlimit : (padded width n).toList.length ≤ limit)
    {rest : List Char} (hrest : ∀ c ∈ rest.head?, isDigit c = false) :
    number limit ((padded width n).toList ++ rest) = some (n, rest) := by
  have hend : ∀ c ∈ (rest.take (limit - (padded width n).toList.length)).head?,
      isDigit c = false := by
    intro c hc
    rw [List.head?_take] at hc
    split at hc
    · cases hc
    · exact hrest c hc
  have hdigits : (((padded width n).toList ++ rest).take limit).takeWhile isDigit =
      (padded width n).toList := by
    rw [List.take_append, List.take_of_length_le hlimit]
    exact (Text.span_append (fun c hc => isDigit_of_mem_padded hc) hend).1
  unfold number
  rw [hdigits, if_neg (by simpa using padded_ne_nil width n), value_padded, List.drop_left]

theorem item_padded {n : Nat} (width : Nat) (hwidth : 0 < width) (h : n < 10 ^ width)
    {rest : List Char} (hrest : ∀ c ∈ rest.head?, isDigit c = false) :
    item width ((padded width n).toList ++ rest) = some (n, rest) := by
  rw [item, skipBlanks_padded, number_padded (length_padded width hwidth h).le hrest]

theorem sign_cons {c : Char} (h : Text.isBlank c = false) (rest : List Char) :
    sign c (c :: rest) = some rest := by
  simp [sign, skipBlanks_cons h]

/-- A year without a sign. -/
theorem year_padded {n : Nat} (h : n < 10000) {rest : List Char}
    (hrest : ∀ c ∈ rest.head?, isDigit c = false) :
    year ((padded 4 n).toList ++ rest) = some ((n : Int), rest) := by
  obtain ⟨c, cs, hcs⟩ := List.exists_cons_of_ne_nil (padded_ne_nil 4 n)
  have hdigit : isDigit c := isDigit_of_mem_padded (hcs ▸ List.mem_cons_self)
  have hnumber := number_padded (length_padded 4 (by decide) h).le hrest
  unfold year
  rw [skipBlanks_padded]
  rw [hcs, List.cons_append] at hnumber ⊢
  split
  · next heq =>
    rw [(List.cons.inj heq).1] at hdigit
    exact absurd hdigit (by decide)
  · next heq =>
    rw [(List.cons.inj heq).1] at hdigit
    exact absurd hdigit (by decide)
  · rw [hnumber, Option.map_some]

theorem year_yearText (y : Int) {rest : List Char}
    (hrest : ∀ c ∈ rest.head?, isDigit c = false) :
    year ((yearText y).toList ++ rest) = some (y, rest) := by
  have hfits : (padded 4 y.natAbs).toList.length ≤ ((padded 4 y.natAbs).toList ++ rest).length := by
    simp
  have hlong := number_padded hfits hrest
  unfold yearText
  split_ifs with hshort hneg
  · rw [year_padded (by omega) hrest, Int.toNat_of_nonneg hshort.1]
  · have hblank : Text.isBlank '-' = false := by decide
    have hback : -(y.natAbs : Int) = y := by omega
    rw [String.toList_append, show "-".toList = ['-'] from rfl, List.singleton_append,
      List.cons_append]
    simp only [year, skipBlanks_cons hblank, hlong, Option.map_some, hback]
  · have hblank : Text.isBlank '+' = false := by decide
    have hback : (y.natAbs : Int) = y := by omega
    rw [String.toList_append, show "+".toList = ['+'] from rfl, List.singleton_append,
      List.cons_append]
    simp only [year, skipBlanks_cons hblank, hlong, Option.map_some, hback]

/-! The parts of a time -/

/-- The signs between the numbers of a time. -/
def IsMark (c : Char) : Prop := Text.isBlank c = false ∧ isDigit c = false

theorem IsMark.head {c : Char} (h : IsMark c) (rest : List Char) :
    ∀ d ∈ (c :: rest).head?, isDigit d = false := by
  rintro _ ⟨⟩
  exact h.2

theorem date_text {d : Date} (hmonth : d.month < 100) (hday : d.day < 100) {rest : List Char}
    (hrest : ∀ c ∈ rest.head?, isDigit c = false) :
    date (d.text.toList ++ rest) = some (d, rest) := by
  have hminus : IsMark '-' := ⟨by decide, by decide⟩
  simp only [date, Date.text, String.toList_append, List.append_assoc,
    show "-".toList = ['-'] from rfl, List.singleton_append]
  simp [year_yearText _ (hminus.head _), sign_cons hminus.1,
    item_padded 2 (by decide) hmonth (hminus.head _),
    item_padded 2 (by decide) hday hrest]

theorem decimals_padded {width n : Nat} (hwidth : 0 < width) (hnine : width ≤ 9)
    (h : n < 10 ^ width) {rest : List Char} (hrest : ∀ c ∈ rest.head?, isDigit c = false) :
    decimals ('.' :: ((padded width n).toList ++ rest)) = some (n * 10 ^ (9 - width), rest) := by
  have hlength := length_padded width hwidth h
  have hdigits : ((padded width n).toList ++ rest).takeWhile isDigit = (padded width n).toList :=
    (Text.span_append (fun c hc => isDigit_of_mem_padded hc) hrest).1
  unfold decimals
  simp only [hdigits, List.take_of_length_le (hlength.le.trans hnine), value_padded,
    List.drop_left]
  rw [if_neg (by simpa using padded_ne_nil width n), hlength]
  rfl

/-- The decimals that are written are those of the second, be they none, three, six or nine. -/
theorem decimals_subsecondText (t : Instant) (rest : List Char) :
    decimals (t.subsecondText.toList ++ 'Z' :: rest) = some (t.subsecond, 'Z' :: rest) := by
  have hzone : IsMark 'Z' := ⟨by decide, by decide⟩
  have hpoint : ".".toList = ['.'] := rfl
  have hlt : t.subsecond < 1000000000 := Nat.mod_lt _ (by decide)
  simp only [Instant.subsecondText]
  split_ifs with hwhole hmilli hmicro
  · rw [hwhole]
    rfl
  all_goals
    rw [String.toList_append, hpoint, List.singleton_append, List.cons_append,
      decimals_padded (by decide) (by decide) (by omega) (hzone.head rest)]
  · rw [show t.subsecond / 1000000 * 10 ^ (9 - 3) = t.subsecond by omega]
  · rw [show t.subsecond / 1000 * 10 ^ (9 - 6) = t.subsecond by omega]
  · rw [show t.subsecond * 10 ^ (9 - 9) = t.subsecond by omega]

theorem head_subsecondText (t : Instant) (rest : List Char) :
    ∀ c ∈ (t.subsecondText.toList ++ 'Z' :: rest).head?, isDigit c = false := by
  have hzone : IsMark 'Z' := ⟨by decide, by decide⟩
  have hpoint : IsMark '.' := ⟨by decide, by decide⟩
  simp only [Instant.subsecondText]
  split_ifs
  · exact hzone.head rest
  all_goals
    rw [String.toList_append, show ".".toList = ['.'] from rfl, List.singleton_append]
    exact hpoint.head _

end Scan

/-! Times that are shown -/

/-- A time that has a text: its year is one of those that have dates, and a second goes on after
its 10⁹ nanoseconds only at the end of a minute, as a leap second. -/
structure Instant.IsShown (t : Instant) : Prop where
  year : isYear t.date.year
  nanos : t.nanos < nanosPerSecond ∨ t.nanos < 2 * nanosPerSecond ∧ t.seconds % 60 = 59

instance (t : Instant) : Decidable t.IsShown :=
  decidable_of_iff (isYear t.date.year ∧
      (t.nanos < nanosPerSecond ∨ t.nanos < 2 * nanosPerSecond ∧ t.seconds % 60 = 59))
    ⟨fun h => ⟨h.1, h.2⟩, fun h => ⟨h.1, h.2⟩⟩

namespace Instant

variable {t : Instant}

/-- The numbers of a time of day, and the second of the day and the nanoseconds that they stand
for. -/
theorem IsShown.timeOfDay (h : t.IsShown) :
    t.hour ≤ 23 ∧ t.minute ≤ 59 ∧ t.second ≤ 60 ∧
      (t.hour * 60 + t.minute) * 60 + (if t.second = 60 then 59 else t.second) = t.secondOfDay ∧
      t.subsecond + (if t.second = 60 then nanosPerSecond else 0) = t.nanos := by
  have hnanos := h.nanos
  unfold subsecond second minute hour secondOfDay nanosPerSecond at *
  split_ifs <;> omega

theorem time_of_isShown (h : t.IsShown) (rest : List Char) :
    Scan.time (t.timeText.toList ++ (t.subsecondText.toList ++ 'Z' :: rest)) =
      some ((t.secondOfDay, t.nanos), 'Z' :: rest) := by
  obtain ⟨hhour, hminute, hsecond, hday, hnanos⟩ := h.timeOfDay
  have hcolon : Scan.IsMark ':' := ⟨by decide, by decide⟩
  simp only [Scan.time, timeText, String.toList_append, List.append_assoc,
    show ":".toList = [':'] from rfl, List.cons_append, List.nil_append]
  simp only [Option.bind_eq_bind, Option.bind_some, Scan.sign_cons hcolon.1,
    Scan.decimals_subsecondText,
    Scan.item_padded (n := t.hour) 2 (by decide) (by omega) (hcolon.head _),
    Scan.item_padded (n := t.minute) 2 (by decide) (by omega) (hcolon.head _),
    Scan.item_padded (n := t.second) 2 (by decide) (by omega)
      (Scan.head_subsecondText t rest)]
  rw [if_neg (by omega)]
  split_ifs at * with hleap
  · rw [hday, hnanos]
    rfl
  · rw [hday, ← hnanos]
    rfl

theorem offset_zone (rest : List Char) : Scan.offset ('Z' :: rest) = some (0, rest) := by
  simp [Scan.offset, Scan.skipBlanks_cons (show Text.isBlank 'Z' = false by decide)]

/-- The date of a time and its second of the day make up its seconds. -/
theorem seconds_eq (t : Instant) : t.date.toDays * 86400 + t.secondOfDay = t.seconds := by
  rw [date, toDays_ofDays, secondOfDay]
  omega

theorem parse?_rfc3339 (h : t.IsShown) : parse? (t.rfc3339 "Z") = some t := by
  have hvalid : t.date.Valid := valid_ofDays _
  have hmonth : t.date.month ≤ 12 := hvalid.2.1
  have hday : t.date.day ≤ 31 := hvalid.2.2.2.trans (by unfold daysInMonth; split_ifs <;> decide)
  have hbegin : Scan.IsMark 'T' := ⟨by decide, by decide⟩
  simp only [parse?, rfc3339, String.toList_append, List.append_assoc,
    show "T".toList = ['T'] from rfl, show "Z".toList = ['Z'] from rfl, List.cons_append,
    List.nil_append]
  simp only [Option.bind_eq_bind, Option.bind_some,
    Scan.date_text (d := t.date) (by omega) (by omega) (hbegin.head _),
    time_of_isShown h, offset_zone, seconds_eq, Int.sub_zero]
  simp [Scan.isDateEnd, Scan.skipBlanks, h.year, hvalid]

end Instant

end Conformance.Time
