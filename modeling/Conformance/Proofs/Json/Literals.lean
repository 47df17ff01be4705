import Conformance.Json.Token
import Mathlib.Data.List.TakeWhile

/-!
Reading back what was written for one scalar: string literals, whatever characters are in them, and
integers of any size.
-/
namespace Conformance.Json

/-! String literals -/

theorem hexValue?_hexDigit : ∀ n < 16, hexValue? (hexDigit n) = some n := by decide

theorem ofShortEscape?_of_shortEscape? {c letter : Char} (h : shortEscape? c = some letter) :
    ofShortEscape? letter = some c ∧ letter ≠ 'u' := by
  unfold shortEscape? at h
  split at h <;> cases h <;> exact ⟨rfl, by decide⟩

/-- A character without a short escape ends no literal and begins no escape. -/
theorem ne_of_shortEscape?_eq_none {c : Char} (h : shortEscape? c = none) :
    c ≠ '"' ∧ c ≠ '\\' := by
  constructor <;> rintro rfl <;> cases h

/-- However a character is written, reading it gives its code value first. -/
theorem codes?_escape (c : Char) (rest : List Char) :
    codes? (escape c ++ rest) = (codes? rest).map fun r => (c.toNat :: r.1, r.2) := by
  unfold escape
  split
  · next letter hshort =>
    obtain ⟨hback, hne⟩ := ofShortEscape?_of_shortEscape? hshort
    simp only [List.cons_append, List.nil_append]
    rw [codes?.eq_4 _ _ fun _ _ _ _ _ h _ => hne h, hback, Option.bind_some]
  · next hshort =>
    obtain ⟨hquote, hslash⟩ := ne_of_shortEscape?_eq_none hshort
    split
    · next hcontrol =>
      have hhigh := hexValue?_hexDigit (c.toNat / 16) (by omega)
      have hlow := hexValue?_hexDigit (c.toNat % 16) (by omega)
      have hzero : hexValue? '0' = some 0 := by decide
      have hcode : c.toNat / 16 * 16 + c.toNat % 16 = c.toNat := Nat.div_add_mod' ..
      simp [codes?, hexValue4?, hhigh, hlow, hzero, hcode]
    · next hcontrol =>
      rw [List.cons_append, List.nil_append, codes?.eq_5 _ _ hquote (fun _ _ _ _ _ h _ => hslash h)
        fun _ _ h _ => hslash h, if_neg hcontrol]

theorem codes?_encode (cs rest : List Char) :
    codes? (encode cs ++ '"' :: rest) = some (cs.map Char.toNat, rest) := by
  induction cs with
  | nil => rw [encode, List.flatMap_nil, List.nil_append, codes?.eq_2, List.map_nil]
  | cons c cs ih =>
    rw [encode_cons, List.append_assoc, codes?_escape, ih, Option.map_some, List.map_cons]

/-- A character is never half of a surrogate pair. -/
theorem not_surrogate (c : Char) : isLeading c.toNat = false ∧ isTrailing c.toNat = false := by
  have hvalid : c.toNat.isValidChar := c.valid
  simp only [Nat.isValidChar] at hvalid
  simp only [isLeading, isTrailing, Bool.and_eq_false_iff, decide_eq_false_iff_not]
  omega

theorem textOf?_map_toNat (cs : List Char) : textOf? (cs.map Char.toNat) = some cs := by
  induction cs with
  | nil => rfl
  | cons c cs ih =>
    obtain ⟨hlead, htrail⟩ := not_surrogate c
    cases cs with
    | nil => simp [textOf?, hlead, htrail]
    | cons d ds =>
      rw [List.map_cons, List.map_cons, textOf?, hlead, htrail, ← List.map_cons, ih]
      simp

theorem stringToken_map_toNat (s : String) : stringToken (s.toList.map Char.toNat) = .str s := by
  rw [stringToken, textOf?_map_toNat]
  simp

/-! Integers -/

theorem isDigit_of_mem_toDigits {n : Nat} {c : Char} (h : c ∈ Nat.toDigits 10 n) : isDigit c :=
  Nat.isDigit_of_mem_toDigits (by decide) (by decide) h

theorem isNumberChar_of_isDigit {c : Char} (h : isDigit c) : isNumberChar c := by
  simp [isNumberChar, h]

/-- Only the digits of zero begin with a zero. -/
theorem tail_toDigits {n : Nat} {cs : List Char} (h : Nat.toDigits 10 n = '0' :: cs) :
    cs = [] := by
  induction n using Nat.strongRecOn generalizing cs with
  | ind n ih =>
    rw [Nat.toDigits_eq_if (by decide)] at h
    split at h
    · exact (List.cons.inj h).2.symm
    · next hlarge =>
      obtain ⟨d, ds, hds⟩ := List.exists_cons_of_ne_nil
        (Nat.toDigits_ne_nil (n := n / 10) (b := 10))
      rw [hds, List.cons_append, List.cons.injEq] at h
      obtain ⟨rfl, -⟩ := h
      -- What is left of `n` without its last digit would be zero.
      have hzero : Nat.ofDigitChars 10 (Nat.toDigits 10 (n / 10)) 0 = 0 := by
        rw [hds, ih (n / 10) (by omega) hds]
        rfl
      rw [Nat.ofDigitChars_ten_toDigits] at hzero
      omega

theorem integerPart?_toDigits (n : Nat) :
    integerPart? (Nat.toDigits 10 n) = some (Nat.toDigits 10 n, []) := by
  unfold integerPart?
  split
  · next rest heq => rw [heq, tail_toDigits heq]
  · have hall : ∀ c ∈ Nat.toDigits 10 n, isDigit c := fun c hc => isDigit_of_mem_toDigits hc
    simp [List.takeWhile_eq_self_iff.2 hall, List.dropWhile_eq_nil_iff.2 hall, Nat.toDigits_ne_nil]

/-- The characters of an integer, with a minus in front of a negative one. -/
theorem toList_toString (n : Int) :
    (toString n).toList = (if n < 0 then ['-'] else []) ++ Nat.toDigits 10 n.natAbs := by
  cases n with
  | ofNat m => simp [Int.toString_eq_repr, Int.repr, Nat.repr_eq_ofList_toDigits]
  | negSucc m => simp [Int.toString_eq_repr, Int.repr, Nat.repr_eq_ofList_toDigits]

theorem number?_toString (n : Int) : number? (toString n).toList = some (.int n) := by
  obtain ⟨d, ds, hds⟩ := List.exists_cons_of_ne_nil
    (Nat.toDigits_ne_nil (n := n.natAbs) (b := 10))
  have hminus : d ≠ '-' := by
    rintro rfl
    exact absurd (isDigit_of_mem_toDigits (hds ▸ List.mem_cons_self)) (by decide)
  have hdigits := integerPart?_toDigits n.natAbs
  have hvalue := Nat.ofDigitChars_ten_toDigits (n := n.natAbs)
  rw [hds] at hdigits hvalue
  rw [toList_toString, hds]
  unfold number?
  split_ifs with hneg
  · simp [hdigits, hvalue, Int.ne_of_lt hneg, Int.ofNat_natAbs_of_nonpos (Int.le_of_lt hneg)]
  · simp [hminus, hdigits, hvalue]
    omega

end Conformance.Json
