import Conformance.DataFormat

/-!
TOML values. A table remembers how it came about, which decides what may still be added to it, and
an array whether it was made by headers, each of which adds a table to it.
-/
namespace Conformance

namespace Toml

inductive Origin where
  | header
  /-- By the header of a table inside it. -/
  | implied
  | dottedKey
  | inlined
  deriving DecidableEq, Repr

end Toml

inductive Toml where
  | bool (value : Bool)
  | int (value : Int)
  | float (text : String)
  /-- A number that has no value: it has no digits, or too many. -/
  | valueless (text : String)
  /-- A date, a time of day, or both. -/
  | moment (text : String)
  | str (text : String)
  | arr (byHeaders : Bool) (items : List Toml)
  | table (origin : Toml.Origin) (members : List (String × Toml))

namespace Toml

def str? : Toml → Option String
  | str text => some text
  | _ => none

def bool? : Toml → Option Bool
  | bool value => some value
  | _ => none

def items? : Toml → Option (List Toml)
  | arr _ items => some items
  | _ => none

def members? : Toml → Option (List (String × Toml))
  | table _ members => some members
  | _ => none

def uint64? : Toml → Option UInt64
  | int (.ofNat n) => if n < UInt64.size then some (.ofNat n) else none
  | _ => none

mutual
/-- Whether every number in it has a value. -/
def isSound : Toml → Bool
  | valueless _ => false
  | arr _ items => areSound items
  | table _ members => haveSound members
  | _ => true

def areSound : List Toml → Bool
  | [] => true
  | v :: rest => v.isSound && areSound rest

def haveSound : List (String × Toml) → Bool
  | [] => true
  | (_, v) :: rest => v.isSound && haveSound rest
end

/-- A record is written as a table, in which unknown members are passed over when they are sound, or
as an array of its fields in order, with whatever comes after them passed over. A moment has none of
the fields. -/
def fields? (names : List String) : Toml → Option (List (Option Toml))
  | table _ members =>
    if haveSound (members.filter fun m => !names.contains m.1) then
      some (names.map fun name => members.lookup name)
    else none
  | arr _ items => some (names.mapIdx fun i _ => items[i]?)
  | moment _ => some (names.map fun _ => none)
  | _ => none

def isEmpty : Toml → Bool
  | arr _ [] => true
  | table _ [] => true
  | _ => false

/-- A case may also be the only member of a table, with nothing in it. -/
def case? : Toml → Option String
  | str name => some name
  | table _ [(name, contents)] => if contents.isEmpty then some name else none
  | _ => none

instance : DataFormat Toml := ⟨fun _ => false, str?, bool?, items?, fields?, case?⟩

end Toml

end Conformance
