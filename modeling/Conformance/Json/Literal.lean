/-!
String literals. Writing escapes the quotation mark, the backslash and the control characters
below the space; reading takes every escape, and puts the two halves of a surrogate pair together.
-/
namespace Conformance.Json

def hexDigit (n : Nat) : Char :=
  Char.ofNat (if n < 10 then '0'.toNat + n else 'a'.toNat + (n - 10))

def hexValue? (c : Char) : Option Nat :=
  if '0' ≤ c ∧ c ≤ '9' then some (c.toNat - '0'.toNat)
  else if 'a' ≤ c ∧ c ≤ 'f' then some (c.toNat - 'a'.toNat + 10)
  else if 'A' ≤ c ∧ c ≤ 'F' then some (c.toNat - 'A'.toNat + 10)
  else none

/-- The letter of a character's short escape. -/
def shortEscape? : Char → Option Char
  | '"' => some '"'
  | '\\' => some '\\'
  | '\x08' => some 'b'
  | '\x0c' => some 'f'
  | '\n' => some 'n'
  | '\r' => some 'r'
  | '\t' => some 't'
  | _ => none

/-- The character that a short escape stands for; a slash may be escaped too. -/
def ofShortEscape? : Char → Option Char
  | '"' => some '"'
  | '\\' => some '\\'
  | '/' => some '/'
  | 'b' => some '\x08'
  | 'f' => some '\x0c'
  | 'n' => some '\n'
  | 'r' => some '\r'
  | 't' => some '\t'
  | _ => none

def escape (c : Char) : List Char :=
  match shortEscape? c with
  | some letter => ['\\', letter]
  | none =>
    if c.toNat < 0x20 then ['\\', 'u', '0', '0', hexDigit (c.toNat / 16), hexDigit (c.toNat % 16)]
    else [c]

def encode (cs : List Char) : List Char := cs.flatMap escape

def literal (s : String) : String := "\"" ++ String.ofList (encode s.toList) ++ "\""

/-- The number that four hexadecimal digits spell. -/
def hexValue4? (a b c d : Char) : Option Nat := do
  return (((← hexValue? a) * 16 + (← hexValue? b)) * 16 + (← hexValue? c)) * 16 + (← hexValue? d)

/-- The code values of a literal up to its closing quotation mark, and what comes after it. -/
def codes? : List Char → Option (List Nat × List Char)
  | [] => none
  | '"' :: rest => some ([], rest)
  | '\\' :: 'u' :: a :: b :: c :: d :: rest =>
    (hexValue4? a b c d).bind fun n => (codes? rest).map fun r => (n :: r.1, r.2)
  | '\\' :: e :: rest =>
    (ofShortEscape? e).bind fun c => (codes? rest).map fun r => (c.toNat :: r.1, r.2)
  | c :: rest =>
    if c.toNat < 0x20 then none else (codes? rest).map fun r => (c.toNat :: r.1, r.2)

theorem length_le_of_codes? {cs after : List Char} {codes : List Nat}
    (h : codes? cs = some (codes, after)) : after.length ≤ cs.length := by
  fun_induction codes? cs generalizing codes after with
  | case1 => simp at h
  | case2 rest => simp_all
  | case3 a b c d rest ih =>
    simp only [Option.bind_eq_some_iff, Option.map_eq_some_iff] at h
    obtain ⟨_, _, r, hr, h⟩ := h
    have := ih hr
    simp_all
    omega
  | case4 e rest _ ih =>
    simp only [Option.bind_eq_some_iff, Option.map_eq_some_iff] at h
    obtain ⟨_, _, r, hr, h⟩ := h
    have := ih hr
    simp_all
    omega
  | case5 => simp at h
  | case6 c rest _ _ _ _ ih =>
    simp only [Option.map_eq_some_iff] at h
    obtain ⟨r, hr, h⟩ := h
    have := ih hr
    simp_all
    omega

def isLeading (n : Nat) : Bool := 0xd800 ≤ n && n < 0xdc00

def isTrailing (n : Nat) : Bool := 0xdc00 ≤ n && n < 0xe000

/-- The text of code values, in which each leading half has its trailing half after it. -/
def textOf? : List Nat → Option (List Char)
  | [] => some []
  | high :: low :: rest =>
    if isLeading high then
      if isTrailing low then
        (textOf? rest).map (Char.ofNat (0x10000 + (high - 0xd800) * 0x400 + (low - 0xdc00)) :: ·)
      else none
    else if isTrailing high then none
    else (textOf? (low :: rest)).map (Char.ofNat high :: ·)
  | [n] => if isLeading n || isTrailing n then none else some [Char.ofNat n]

theorem encode_cons (c : Char) (cs : List Char) : encode (c :: cs) = escape c ++ encode cs := by
  simp [encode]

end Conformance.Json
