import Conformance.DataFormat
import Conformance.Json.Value

/-!
Records as JSON values. A record may be written as an object, in which unknown members are passed
over and no known one is repeated, or as an array of its fields in order, from the end of which
fields may be missing.
-/
namespace Conformance.Json

def fields? (names : List String) : Json → Option (List (Option Json))
  | obj members =>
    if names.all fun name => (members.filter (·.1 == name)).length ≤ 1 then
      some (names.map fun name => members.lookup name)
    else none
  | arr items =>
    if items.length ≤ names.length then
      some (items.map some ++ List.replicate (names.length - items.length) none)
    else none
  | _ => none

def isNull : Json → Bool
  | null => true
  | _ => false

/-- A case may also be the only member of an object. -/
def case? : Json → Option String
  | str name => some name
  | obj [(name, null)] => some name
  | _ => none

instance : DataFormat Json := ⟨isNull, str?, bool?, items?, fields?, case?⟩

def natBelow? (limit : Nat) (v : Json) : Option Nat := do
  let n ← v.nat?
  if n < limit then return n else none

def uint32? (v : Json) : Option UInt32 := (v.natBelow? UInt32.size).map UInt32.ofNat

def uint64? (v : Json) : Option UInt64 := (v.natBelow? UInt64.size).map UInt64.ofNat

def int64? (v : Json) : Option Int64 := do
  let n ← v.int?
  if Int64.minValue.toInt ≤ n ∧ n ≤ Int64.maxValue.toInt then return Int64.ofInt n else none

end Conformance.Json
