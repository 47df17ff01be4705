import Conformance.Toml.Value

/-!
Putting values into tables. A key is defined once. A header may go through every table that is not
inline and through the last table of an array made by headers; a dotted key stays within tables that
dotted keys have made, or passes through tables that are only implied.
-/
namespace Conformance.Toml

abbrev Members := List (String × Toml)

/-- Replaces the value of a key, or adds one; the change may refuse. -/
def alter (key : String) (change : Option Toml → Option Toml) : Members → Option Members
  | [] => (change none).map fun v => [(key, v)]
  | (k, v) :: rest =>
    if k = key then (change (some v)).map fun v => (k, v) :: rest
    else (alter key change rest).map ((k, v) :: ·)

/-- Changes the last table of an array made by headers. -/
def changeLast (change : Members → Option Members) (items : List Toml) : Option Toml :=
  match items.getLast? with
  | some (.table origin members) =>
    (change members).map fun members => .arr true (items.dropLast ++ [.table origin members])
  | _ => none

/-- Adds a value at the end of a dotted key. -/
def assign (value : Toml) (name : String) : List String → Members → Option Members
  | [] =>
    alter name fun
      | none => some value
      | some _ => none
  | [key] =>
    alter key fun
      | none => (assign value name [] []).map (.table .dottedKey)
      | some (.table .dottedKey members) =>
        (assign value name [] members).map (.table .dottedKey)
      | some _ => none
  | key :: path =>
    alter key fun
      | none => (assign value name path []).map (.table .dottedKey)
      | some (.table .dottedKey members) => (assign value name path members).map (.table .dottedKey)
      | some (.table .implied members) => (assign value name path members).map (.table .implied)
      | some (.arr true items) => changeLast (assign value name path) items
      | some _ => none

/-- Changes the table that headers lead to. -/
def descend (change : Members → Option Members) : List String → Members → Option Members
  | [], members => change members
  | key :: path, members =>
    members |> alter key fun
      | none => (descend change path []).map (.table .implied)
      | some (.table .inlined _) => none
      | some (.table origin members) => (descend change path members).map (.table origin)
      | some (.arr true items) => changeLast (descend change path) items
      | some _ => none

/-- A table of its own, which may have been implied before. -/
def openTable (name : String) : Members → Option Members :=
  alter name fun
    | none => some (.table .header [])
    | some (.table .implied members) => some (.table .header members)
    | some _ => none

/-- A further table of an array. -/
def openItem (name : String) : Members → Option Members :=
  alter name fun
    | none => some (.arr true [.table .header []])
    | some (.arr true items) => some (.arr true (items ++ [.table .header []]))
    | some _ => none

/-- A document so far: its members, and the table that the next lines belong to. -/
structure Document where
  members : Members
  current : List String

namespace Document

def empty : Document := ⟨[], []⟩

def assign (d : Document) (path : List String) (name : String) (value : Toml) : Option Document :=
  (descend (Toml.assign value name path) d.current d.members).map fun members => { d with members }

def openTable (d : Document) (path : List String) (name : String) : Option Document :=
  (descend (Toml.openTable name) path d.members).map fun members => ⟨members, path ++ [name]⟩

def openItem (d : Document) (path : List String) (name : String) : Option Document :=
  (descend (Toml.openItem name) path d.members).map fun members => ⟨members, path ++ [name]⟩

end Document

end Conformance.Toml
