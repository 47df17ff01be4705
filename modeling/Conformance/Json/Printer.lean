import Conformance.Json.Literal
import Conformance.Json.Value

/-!
JSON text in two layouts: compact, without any white space, and indented, with one item or member
on a line and two spaces for each level.
-/
namespace Conformance.Json

mutual
def compact : Json → String
  | null => "null"
  | bool true => "true"
  | bool false => "false"
  | int n => toString n
  | decimal s => s
  | str s => literal s
  | unpaired => "\"\\ud800\""
  | arr [] => "[]"
  | arr (v :: rest) => "[" ++ v.compact ++ compactItems rest ++ "]"
  | obj [] => "\x7b\x7d"
  | obj ((k, v) :: rest) =>
    "\x7b" ++ literal k ++ ":" ++ v.compact ++ compactMembers rest ++ "\x7d"

def compactItems : List Json → String
  | [] => ""
  | v :: rest => "," ++ v.compact ++ compactItems rest

def compactMembers : List (String × Json) → String
  | [] => ""
  | (k, v) :: rest => "," ++ literal k ++ ":" ++ v.compact ++ compactMembers rest
end

/-- A new line at the given level. -/
def newline (level : Nat) : String := "\n" ++ String.ofList (List.replicate (2 * level) ' ')

mutual
def indentedAt (level : Nat) : Json → String
  | null => "null"
  | bool true => "true"
  | bool false => "false"
  | int n => toString n
  | decimal s => s
  | str s => literal s
  | unpaired => "\"\\ud800\""
  | arr [] => "[]"
  | arr (v :: rest) =>
    "[" ++ newline (level + 1) ++ v.indentedAt (level + 1) ++ indentedItems (level + 1) rest
      ++ newline level ++ "]"
  | obj [] => "\x7b\x7d"
  | obj ((k, v) :: rest) =>
    "\x7b" ++ newline (level + 1) ++ literal k ++ ": " ++ v.indentedAt (level + 1)
      ++ indentedMembers (level + 1) rest ++ newline level ++ "\x7d"

def indentedItems (level : Nat) : List Json → String
  | [] => ""
  | v :: rest => "," ++ newline level ++ v.indentedAt level ++ indentedItems level rest

def indentedMembers (level : Nat) : List (String × Json) → String
  | [] => ""
  | (k, v) :: rest =>
    "," ++ newline level ++ literal k ++ ": " ++ v.indentedAt level ++ indentedMembers level rest
end

def indented (v : Json) : String := v.indentedAt 0

end Conformance.Json
