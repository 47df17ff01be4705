import Conformance.Json.Token
import Conformance.Json.Value

/-!
Reading a JSON value token by token. The arrays and objects around the next value are kept as a
stack of the places where a value is due; a finished value goes into the innermost of them.
-/
namespace Conformance.Json

/-- The members of an open object, the latest first; a key need not stand for a text. -/
abbrev Members := List (Option String × Json)

/-- The object of members. -/
def ofMembers (members : Members) : Json :=
  match members.reverse.mapM fun (key, v) => key.map (·, v) with
  | some members => .obj members
  | none => .unpaired

/-- A place for a value inside an open array or object, with what stands before it, the latest
first. -/
inductive Place where
  | item (before : List Json)
  | member (before : Members) (key : Option String)

inductive Stage where
  | value
  | firstItem
  | afterItem (items : List Json)
  | firstKey
  | nextKey (members : Members)
  | afterKey (members : Members) (key : Option String)
  | afterMember (members : Members)
  | done (value : Json)

structure Reading where
  places : List Place
  stage : Stage

namespace Reading

def start : Reading := ⟨[], .value⟩

def put (places : List Place) (v : Json) : Reading :=
  match places with
  | [] => ⟨[], .done v⟩
  | .item before :: outer => ⟨outer, .afterItem (v :: before)⟩
  | .member before key :: outer => ⟨outer, .afterMember ((key, v) :: before)⟩

def readValue (places : List Place) : Token → Option Reading
  | .null => some (put places .null)
  | .bool b => some (put places (.bool b))
  | .int n => some (put places (.int n))
  | .decimal s => some (put places (.decimal s))
  | .str s => some (put places (.str s))
  | .unpaired => some (put places .unpaired)
  | .openArray => some ⟨places, .firstItem⟩
  | .openObject => some ⟨places, .firstKey⟩
  | _ => none

def readKey (places : List Place) (members : Members) : Token → Option Reading
  | .str key => some ⟨places, .afterKey members (some key)⟩
  | .unpaired => some ⟨places, .afterKey members none⟩
  | _ => none

def read (r : Reading) (token : Token) : Option Reading :=
  match r.stage with
  | .value => readValue r.places token
  | .firstItem =>
    match token with
    | .closeArray => some (put r.places (.arr []))
    | token => readValue (.item [] :: r.places) token
  | .afterItem items =>
    match token with
    | .comma => some ⟨.item items :: r.places, .value⟩
    | .closeArray => some (put r.places (.arr items.reverse))
    | _ => none
  | .firstKey =>
    match token with
    | .closeObject => some (put r.places (.obj []))
    | token => readKey r.places [] token
  | .nextKey members => readKey r.places members token
  | .afterKey members key =>
    match token with
    | .colon => some ⟨.member members key :: r.places, .value⟩
    | _ => none
  | .afterMember members =>
    match token with
    | .comma => some ⟨r.places, .nextKey members⟩
    | .closeObject => some (put r.places (ofMembers members))
    | _ => none
  | .done _ => none

def value? (r : Reading) : Option Json :=
  match r.stage with
  | .done v => some v
  | _ => none

end Reading

def ofTokens? (ts : List Token) : Option Json := do
  let r ← ts.foldlM Reading.read Reading.start
  r.value?

def parse? (s : String) : Option Json := do ofTokens? (← tokens s)

end Conformance.Json
