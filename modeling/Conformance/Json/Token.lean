import Conformance.Json.Literal

/-!
The tokens of JSON text: signs, scalars and string literals, with white space between them.
-/
namespace Conformance.Json

inductive Token where
  | openArray
  | closeArray
  | openObject
  | closeObject
  | comma
  | colon
  | null
  | bool (value : Bool)
  | int (value : Int)
  | decimal (text : String)
  | str (text : String)
  | unpaired
  deriving DecidableEq, Repr

def isSpace (c : Char) : Bool := c == ' ' || c == '\n' || c == '\t' || c == '\r'

def sign? : Char → Option Token
  | '[' => some .openArray
  | ']' => some .closeArray
  | '{' => some .openObject
  | '}' => some .closeObject
  | ',' => some .comma
  | ':' => some .colon
  | _ => none

def isLetter (c : Char) : Bool := 'a' ≤ c && c ≤ 'z'

def keyword? : List Char → Option Token
  | ['n', 'u', 'l', 'l'] => some .null
  | ['t', 'r', 'u', 'e'] => some (.bool true)
  | ['f', 'a', 'l', 's', 'e'] => some (.bool false)
  | _ => none

def isDigit (c : Char) : Bool := '0' ≤ c && c ≤ '9'

def isNumberChar (c : Char) : Bool :=
  isDigit c || c == '-' || c == '+' || c == '.' || c == 'e' || c == 'E'

/-- A number has no leading zero, and a fraction and an exponent have at least one digit. -/
def integerPart? : List Char → Option (List Char × List Char)
  | '0' :: rest => some (['0'], rest)
  | cs =>
    let digits := cs.takeWhile isDigit
    if digits.isEmpty then none else some (digits, cs.dropWhile isDigit)

def someDigits (cs : List Char) : Bool := !cs.isEmpty && cs.all isDigit

def isExponent : List Char → Bool
  | '+' :: rest => someDigits rest
  | '-' :: rest => someDigits rest
  | rest => someDigits rest

def isExponentMark (c : Char) : Bool := c == 'e' || c == 'E'

/-- What may follow the integer part, and has to be there for a number that is no integer. -/
def isFractionOrExponent : List Char → Bool
  | '.' :: rest =>
    someDigits (rest.takeWhile isDigit) &&
      match rest.dropWhile isDigit with
      | [] => true
      | c :: after => isExponentMark c && isExponent after
  | c :: rest => isExponentMark c && isExponent rest
  | [] => false

def number? (cs : List Char) : Option Token := do
  let (negative, magnitude) := match cs with
    | '-' :: rest => (true, rest)
    | _ => (false, cs)
  let (digits, rest) ← integerPart? magnitude
  if rest.isEmpty then
    let n := Nat.ofDigitChars 10 digits 0
    if negative && n == 0 then return .decimal (String.ofList cs)
    return .int (if negative then -(n : Int) else n)
  else if isFractionOrExponent rest then return .decimal (String.ofList cs)
  else none

def stringToken (codes : List Nat) : Token :=
  match textOf? codes with
  | some cs => .str (String.ofList cs)
  | none => .unpaired

/-- The tokens of `cs` after those read, or nothing when some part of it is no token. -/
def tokensFrom (read : List Token) (cs : List Char) : Option (List Token) :=
  match cs with
  | [] => some read.reverse
  | c :: rest =>
    if isSpace c then tokensFrom read rest
    else if let some token := sign? c then tokensFrom (token :: read) rest
    else if c = '"' then
      match _h : codes? rest with
      | none => none
      | some (codes, after) => tokensFrom (stringToken codes :: read) after
    else if isLetter c then
      match keyword? (c :: rest.takeWhile isLetter) with
      | none => none
      | some token => tokensFrom (token :: read) (rest.dropWhile isLetter)
    else if isNumberChar c then
      match number? (c :: rest.takeWhile isNumberChar) with
      | none => none
      | some token => tokensFrom (token :: read) (rest.dropWhile isNumberChar)
    else none
termination_by cs.length
decreasing_by
  · simp
  · simp
  · have := length_le_of_codes? _h; simp only [List.length_cons]; omega
  · exact Nat.lt_succ_of_le (List.dropWhile_suffix isLetter).length_le
  · exact Nat.lt_succ_of_le (List.dropWhile_suffix isNumberChar).length_le

def tokens (s : String) : Option (List Token) := tokensFrom [] s.toList

end Conformance.Json
