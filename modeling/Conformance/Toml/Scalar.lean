import Conformance.Time.Instant
import Conformance.Toml.Value

/-!
Values in TOML text that are written as one word: flags, numbers, dates and times.
-/
namespace Conformance.Toml

/-! ### Numbers -/

def digit? (base : Nat) (c : Char) : Option Nat :=
  let value :=
    if '0' ≤ c ∧ c ≤ '9' then c.toNat - '0'.toNat
    else if 'a' ≤ c ∧ c ≤ 'f' then c.toNat - 'a'.toNat + 10
    else if 'A' ≤ c ∧ c ≤ 'F' then c.toNat - 'A'.toNat + 10
    else base
  if value < base then some value else none

def isDecimal (c : Char) : Bool := (digit? 10 c).isSome

def isHexadecimal (c : Char) : Bool := (digit? 16 c).isSome

def ofDigits (base : Nat) (digits : List Nat) : Nat := digits.foldl (fun n d => n * base + d) 0

/-- The sign, and the rest of a number. -/
def signed : List Char → Int × List Char
  | '-' :: rest => (-1, rest)
  | '+' :: rest => (1, rest)
  | cs => (1, cs)

def isUnderscore (c : Char) : Bool := c == '_'

/-- What stands between the marks of a kind. -/
def pieces (isMark : Char → Bool) : List Char → List (List Char)
  | [] => [[]]
  | c :: rest =>
    if isMark c then [] :: pieces isMark rest
    else match pieces isMark rest with
      | [] => [[c]]
      | piece :: more => (c :: piece) :: more

def startsAs (p : Char → Bool) (piece : List Char) : Bool := piece.head?.any p

def endsAs (p : Char → Bool) (piece : List Char) : Bool := piece.getLast?.any p

/-- Whether the pieces after an underscore have digits where they meet another one. -/
def goOnWell (p : Char → Bool) : List (List Char) → Bool
  | [] => true
  | [piece] => startsAs p piece
  | piece :: rest => startsAs p piece && endsAs p piece && goOnWell p rest

/-- An underscore stands between two digits, or between a sign and a digit. -/
def isSeparated (p : Char → Bool) (cs : List Char) : Bool :=
  match pieces isUnderscore cs with
  | [] => true
  | [_] => true
  | [_] :: rest => goOnWell p rest
  | piece :: rest => endsAs p piece && goOnWell p rest

/-- An integer has at most 128 bits. -/
def inRange (n : Int) : Bool :=
  if n < 0 then n.natAbs ≤ Nat.pow 2 127 else n.natAbs < Nat.pow 2 128

def ofInteger (cs : List Char) (n : Int) : Toml :=
  if inRange n then .int n else .valueless (String.ofList cs)

/-- What follows the mark of a base; there may be no digits. -/
def based? (base : Nat) (cs : List Char) : Option Toml :=
  let digits := cs.filterMap (digit? base)
  if isSeparated isHexadecimal cs &&
      cs.all fun c => (digit? base c).isSome || isUnderscore c then
    if digits.isEmpty then some (.valueless "") else some (ofInteger cs (ofDigits base digits))
  else none

/-- An integer without a leading zero. A letter next to an underscore leaves it without a value. -/
def integer? (cs : List Char) : Option Toml :=
  let (sign, magnitude) := signed cs
  if isSeparated isHexadecimal cs && (magnitude == ['0'] || magnitude.head? != some '0') then
    match (magnitude.filter (!isUnderscore ·)).mapM (digit? 10) with
    | some digits => some (ofInteger cs (sign * ofDigits 10 digits))
    | none => some (.valueless (String.ofList cs))
  else none

/-- A decimal number: `digits` with the point after `places` of them. -/
structure Decimal where
  digits : List Nat
  places : Int

def isDecimalOrUnderscore (c : Char) : Bool := isDecimal c || isUnderscore c

/-- The digits at the start, of which there is at least one. -/
def digits? (cs : List Char) : Option (List Nat) :=
  match (cs.takeWhile isDecimalOrUnderscore).filterMap (digit? 10) with
  | [] => none
  | digits => some digits

def exponent? (cs : List Char) : Option Int :=
  match cs with
  | [] => some 0
  | c :: rest =>
    if c = 'e' ∨ c = 'E' then
      let (sign, rest) := signed rest
      if rest.all isDecimalOrUnderscore then
        (digits? rest).map fun digits => sign * ofDigits 10 digits
      else none
    else none

/-- A decimal number without its sign, with a fraction, an exponent or both. -/
def decimal? (cs : List Char) : Option Decimal := do
  let whole ← digits? cs
  if cs.head? == some '0' && whole.length != 1 then none
  match cs.dropWhile isDecimalOrUnderscore with
  | '.' :: rest =>
    let fraction ← digits? rest
    let exponent ← exponent? (rest.dropWhile isDecimalOrUnderscore)
    return ⟨whole ++ fraction, whole.length + exponent⟩
  | rest => return ⟨whole, whole.length + (← exponent? rest)⟩

/-- The least number that is nearer to 2¹⁰²⁴ than to any float. -/
def floatLimit : Nat := Nat.pow 2 1024 - Nat.pow 2 970

/-- Whether a number is too large for a float. The limit has 309 digits before the point. -/
def Decimal.overflows (d : Decimal) : Bool :=
  let digits := d.digits.dropWhile (· == 0)
  let places := d.places - (d.digits.length - digits.length)
  if digits.isEmpty || places < 309 then false
  else if 309 < places then true
  else
    floatLimit * Nat.pow 10 (digits.length - 309) ≤
      ofDigits 10 digits * Nat.pow 10 (309 - digits.length)

def float? (cs : List Char) : Option Toml := do
  let d ← decimal? (signed cs).2
  let text := String.ofList cs
  if isSeparated isDecimal cs then return if d.overflows then .valueless text else .float text
  else none

def isFloatMark (c : Char) : Bool := c == '.' || c == 'e' || c == 'E'

/-- A number in decimals: what comes after its first digits tells an integer from a float. -/
def number? (cs : List Char) : Option Toml :=
  let magnitude := (signed cs).2
  let rest := magnitude.dropWhile isDecimal
  if magnitude = ['i', 'n', 'f'] ∨ magnitude = ['n', 'a', 'n'] then some (.float (String.ofList cs))
  else if magnitude.isEmpty then none
  else if rest.any isFloatMark then float? cs
  else if rest.head?.all isUnderscore then integer? cs
  else none

/-! ### Dates and times -/

/-- The number that `n` digits spell. -/
def numeral? (n : Nat) (cs : List Char) : Option Nat := do
  let digits ← (cs.take n).mapM (digit? 10)
  if digits.length = n then return ofDigits 10 digits else none

def isDate (cs : List Char) : Bool :=
  match numeral? 4 cs, cs[4]?, numeral? 2 (cs.drop 5), cs[7]?, numeral? 2 (cs.drop 8) with
  | some year, some '-', some month, some '-', some day =>
    cs.length = 10 && decide (Time.Date.Valid ⟨year, month, day⟩)
  | _, _, _, _, _ => false

/-- Hours and minutes, and what comes after them. -/
def minutes? (cs : List Char) : Option (List Char) :=
  match numeral? 2 cs, cs[2]?, numeral? 2 (cs.drop 3) with
  | some hour, some ':', some minute =>
    if hour ≤ 23 ∧ minute ≤ 59 then some (cs.drop 5) else none
  | _, _, _ => none

/-- What comes after a time of day. It may have seconds, and those a fraction. -/
def timeOfDay? (cs : List Char) : Option (List Char) := do
  let rest ← minutes? cs
  match rest with
  | ':' :: seconds =>
    if 60 < (← numeral? 2 seconds) then none
    match seconds.drop 2 with
    | '.' :: fraction =>
      let digits := fraction.takeWhile fun c => (digit? 10 c).isSome
      if digits.isEmpty then none else some (fraction.drop digits.length)
    | after => some after
  | after => some after

def isOffset : List Char → Bool
  | [] => true
  | ['Z'] => true
  | ['z'] => true
  | c :: rest => (c == '+' || c == '-') && minutes? rest == some []

def isMoment (cs : List Char) : Bool :=
  if isDate (cs.take 10) then
    match cs.drop 10 with
    | [] => true
    | c :: rest =>
      (c == 'T' || c == 't' || c == ' ') &&
        match timeOfDay? rest with
        | some offset => isOffset offset
        | none => false
  else timeOfDay? cs == some []

/-- The value of a word. -/
def scalar? (cs : List Char) : Option Toml :=
  if cs = ['t', 'r', 'u', 'e'] then some (.bool true)
  else if cs = ['f', 'a', 'l', 's', 'e'] then some (.bool false)
  else if isMoment cs then some (.moment (String.ofList cs))
  else match cs with
    | '0' :: 'x' :: rest => based? 16 rest
    | '0' :: 'o' :: rest => based? 8 rest
    | '0' :: 'b' :: rest => based? 2 rest
    | cs => number? cs

end Conformance.Toml
