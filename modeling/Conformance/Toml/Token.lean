import Conformance.Toml.Quoted
import Conformance.Toml.Scalar

/-!
The tokens of TOML text: signs, line ends, strings and words. A word is what stands between those
and blanks; a date and a time after it, with a space between them, are one word. Comments and blanks
leave no token, so a bracket says whether it is doubled.
-/
namespace Conformance.Toml

inductive Token where
  | equals
  | comma
  | openBracket (doubled : Bool)
  | closeBracket (doubled : Bool)
  | openBrace
  | closeBrace
  | newline
  | word (text : String)
  | str (text : String)
  /-- A string over several lines, which is no key. -/
  | lines (text : String)
  deriving DecidableEq, Repr

def startsWith (c : Char) : List Char → Bool
  | [] => false
  | d :: _ => d == c

/-- The token of a sign, where `rest` comes after it. -/
def sign? (c : Char) (rest : List Char) : Option Token :=
  match c with
  | '\n' => some .newline
  | '=' => some .equals
  | ',' => some .comma
  | '[' => some (.openBracket (startsWith '[' rest))
  | ']' => some (.closeBracket (startsWith ']' rest))
  | '\x7b' => some .openBrace
  | '\x7d' => some .closeBrace
  | _ => none

def isWordChar (c : Char) : Bool :=
  !(Quoted.isSpace c || (sign? c []).isSome || c == '#' || c == '"' || c == Quoted.apostrophe)

def wordLength (cs : List Char) : Nat :=
  let n := (cs.takeWhile isWordChar).length
  if isDate (cs.take n) then
    match cs.drop n with
    | ' ' :: c :: rest =>
      if c.isDigit then n + 2 + (rest.takeWhile isWordChar).length else n
    | _ => n
  else n

/-- The token of a string that opens with the mark `c`, and its length after that. -/
def string? (c : Char) (rest : List Char) : Option (Token × Nat) :=
  let (line, lines) :=
    if c = '"' then (Quoted.basic?, Quoted.basicLines?) else (Quoted.literal?, Quoted.literalLines?)
  if rest.take 2 = [c, c] then
    (Quoted.lines? lines (rest.drop 2)).map fun (text, n) => (.lines (String.ofList text), n + 2)
  else (line rest).map fun (text, n) => (.str (String.ofList text), n)

/-- The length of a comment after its mark, or nothing if it holds a character that it may not. -/
def comment? (rest : List Char) : Option Nat :=
  let text := rest.takeWhile (· != '\n')
  if text.all fun c => Quoted.isPlain c || c == '\r' then some text.length else none

/-- The next token, if there is one before blanks or a comment, and the number of characters after
`c` that are read with it. -/
def token? (c : Char) (rest : List Char) : Option (Option Token × Nat) :=
  if Quoted.isSpace c then some (none, 0)
  else if let some sign := sign? c rest then some (some sign, 0)
  else if c = '#' then (comment? rest).map fun n => (none, n)
  else if c = '"' ∨ c = Quoted.apostrophe then
    (string? c rest).map fun (token, n) => (some token, n)
  else
    let n := wordLength (c :: rest)
    some (some (.word (String.ofList ((c :: rest).take n))), n - 1)

def tokensFrom (read : List Token) (cs : List Char) : Option (List Token) :=
  match cs with
  | [] => some read.reverse
  | c :: rest =>
    match token? c rest with
    | none => none
    | some (token, n) => tokensFrom (token.toList ++ read) (rest.drop n)
termination_by cs.length
decreasing_by simp only [List.length_cons, List.length_drop]; omega

/-- A carriage return stands only before a line feed. -/
def returnsSound : List Char → Bool
  | [] => true
  | '\r' :: '\n' :: rest => returnsSound rest
  | '\r' :: _ => false
  | _ :: rest => returnsSound rest

/-- The tokens of a text, which may begin with a byte order mark. -/
def tokens? (s : String) : Option (List Token) :=
  let cs := match s.toList with
    | '\ufeff' :: rest => rest
    | cs => cs
  if returnsSound cs then tokensFrom [] cs else none

end Conformance.Toml
