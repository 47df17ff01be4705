/-!
JSON values. Objects keep their members in order, repeated keys included, so that a reader of a
record can refuse a repetition. A number is an integer or a decimal text.
-/
namespace Conformance

inductive Json where
  | null
  | bool (value : Bool)
  | int (value : Int)
  /-- A number with a fraction, an exponent or a negative zero, as it is written. -/
  | decimal (text : String)
  | str (text : String)
  /-- A string with an escape for half of a surrogate pair, which stands for no text, or an object
  with such a key. -/
  | unpaired
  | arr (items : List Json)
  | obj (members : List (String × Json))

namespace Json

/-- The value of the first member called `key`. -/
def member? (key : String) : Json → Option Json
  | obj members => members.lookup key
  | _ => none

def str? : Json → Option String
  | str text => some text
  | _ => none

def bool? : Json → Option Bool
  | bool value => some value
  | _ => none

def int? : Json → Option Int
  | int value => some value
  | _ => none

def nat? : Json → Option Nat
  | int (.ofNat n) => some n
  | _ => none

def items? : Json → Option (List Json)
  | arr items => some items
  | _ => none

def members? : Json → Option (List (String × Json))
  | obj members => some members
  | _ => none

def strings (texts : List String) : Json := arr (texts.map str)

def ofOption {α : Type} (f : α → Json) : Option α → Json
  | none => null
  | some a => f a

end Json

end Conformance
