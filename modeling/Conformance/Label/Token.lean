import Conformance.Text.Alphanumeric
import Conformance.Text.Blank

/-!
The tokens of label expressions. A text is cut into the longest possible words and the signs
around them; white space only separates. Positions count bytes of the text in UTF-8.
-/
namespace Conformance.Label

inductive Token where
  | word (text : String)
  | and
  | or
  | not
  | opening
  | closing
  deriving DecidableEq, Repr

/-- The canonical spelling; a comma is a spelling of `or`. -/
def Token.text : Token → String
  | word text => text
  | and => "&&"
  | or => "||"
  | not => "!"
  | opening => "("
  | closing => ")"

structure Lexeme where
  position : Nat
  token : Token
  deriving DecidableEq, Repr

/-- The deepest nesting of negations and parentheses that an expression may have. -/
def maxNesting : Nat := 256

inductive Fault where
  | empty
  | invalidChar (position : Nat) (char : Char)
  | unexpectedToken (position : Nat) (found : Token)
  | unexpectedEnd
  | unbalancedParen (position : Nat)
  | tooDeep (position : Nat)
  deriving DecidableEq, Repr

def Fault.message : Fault → String
  | empty => "label expression is empty"
  | invalidChar position char =>
    "unexpected character '" ++ String.singleton char ++ "' at position " ++ toString position
  | unexpectedToken position found =>
    "unexpected token '" ++ found.text ++ "' at position " ++ toString position
  | unexpectedEnd => "unexpected end of label expression"
  | unbalancedParen position => "unbalanced parenthesis at position " ++ toString position
  | tooDeep position =>
    "label expression exceeds max nesting depth " ++ toString maxNesting ++ " at position "
      ++ toString position

def isWordChar (c : Char) : Bool :=
  Text.isAlphanumeric c || c == '_' || c == '-' || c == '.'

/-- The sign that one character spells by itself. -/
def sign? : Char → Option Token
  | '(' => some .opening
  | ')' => some .closing
  | '!' => some .not
  | ',' => some .or
  | _ => none

/-- The sign that a character spells when it is written twice. -/
def doubleSign? : Char → Option Token
  | '&' => some .and
  | '|' => some .or
  | _ => none

def byteLength : List Char → Nat
  | [] => 0
  | c :: cs => c.utf8Size + byteLength cs

/-- The lexemes of `cs`, which starts at byte `position` of the whole text, after those read. -/
def lexemesFrom (position : Nat) (read : List Lexeme) (cs : List Char) :
    Except Fault (List Lexeme) :=
  match cs with
  | [] => .ok read.reverse
  | c :: rest =>
    if Text.isBlank c then
      lexemesFrom (position + c.utf8Size) read rest
    else if let some token := sign? c then
      lexemesFrom (position + c.utf8Size) (⟨position, token⟩ :: read) rest
    else if let some token := doubleSign? c then
      match rest with
      | [] => .error (.invalidChar position c)
      | d :: rest =>
        if d = c then lexemesFrom (position + 2 * c.utf8Size) (⟨position, token⟩ :: read) rest
        else .error (.invalidChar position c)
    else if isWordChar c then
      let word := c :: rest.takeWhile isWordChar
      lexemesFrom (position + byteLength word) (⟨position, .word (String.ofList word)⟩ :: read)
        (rest.dropWhile isWordChar)
    else .error (.invalidChar position c)
termination_by cs.length
decreasing_by
  · simp
  · simp
  · simp only [List.length_cons]; omega
  · exact Nat.lt_succ_of_le (List.dropWhile_suffix isWordChar).length_le

def lexemes (text : String) : Except Fault (List Lexeme) := lexemesFrom 0 [] text.toList

end Conformance.Label
