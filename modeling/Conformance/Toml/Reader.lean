import Conformance.Toml.Table
import Conformance.Toml.Token

/-!
Reading a TOML document token by token. The line, arrays and inline tables around the next value are
kept as a stack of places where a value is due; a finished value goes into the innermost of them.
-/
namespace Conformance.Toml

/-- Arrays and inline tables may be this deep inside each other, and keys have at most as many
parts. -/
def nestingLimit : Nat := 80

/-- A dotted key while it is read: its parts, the latest first, and whether one is due. -/
structure KeyReading where
  parts : List String
  due : Bool

namespace KeyReading

def start : KeyReading := ⟨[], true⟩

def addPart (k : KeyReading) (part : String) : Option KeyReading :=
  if k.due then some ⟨part :: k.parts, false⟩ else none

def isBare (part : String) : Bool := part.toList.all fun c => c.isAlphanum || c == '_' || c == '-'

/-- What stands between two dots of a word; nothing when the part is outside of the word. -/
def addPiece (k : KeyReading) (piece : String) : Option KeyReading :=
  if piece.isEmpty then some k else if isBare piece then k.addPart piece else none

def addDot (k : KeyReading) : Option KeyReading := if k.due then none else some ⟨k.parts, true⟩

def addPieces (k : KeyReading) : List String → Option KeyReading
  | [] => some k
  | piece :: rest => do (← (← k.addDot).addPiece piece).addPieces rest

def isDot (c : Char) : Bool := c == '.'

def read (k : KeyReading) : Token → Option KeyReading
  | .word text =>
    match (pieces isDot text.toList).map String.ofList with
    | [] => none
    | piece :: rest => do (← k.addPiece piece).addPieces rest
  | .str text => k.addPart text
  | _ => none

/-- The finished key: its path, and the name at its end. -/
def key? (k : KeyReading) : Option (List String × String) :=
  match k.due, k.parts with
  | false, name :: path => if path.length < nestingLimit then some (path.reverse, name) else none
  | _, _ => none

end KeyReading

inductive Place where
  | line (path : List String) (name : String)
  | item (before : List Toml)
  | member (before : Members) (path : List String) (name : String)

inductive Stage where
  | lineStart
  | lineEnd
  /-- The second bracket of a header for an item of an array. -/
  | secondOpen
  | header (ofItem : Bool) (key : KeyReading)
  | secondClose
  | lineKey (key : KeyReading)
  | value
  /-- An item, or the end of the array. -/
  | item (before : List Toml)
  | afterItem (items : List Toml)
  /-- A member, or the end of the inline table. -/
  | member (before : Members)
  | memberKey (before : Members) (key : KeyReading)
  /-- The equals sign after the key of a member. -/
  | memberEquals (before : Members) (path : List String) (name : String)
  | memberValue
  | afterMember (members : Members)

structure Reading where
  document : Document
  places : List Place
  stage : Stage

namespace Reading

def start : Reading := ⟨.empty, [], .lineStart⟩

def goTo (r : Reading) (stage : Stage) : Option Reading := some { r with stage := stage }

def put (r : Reading) (v : Toml) : Option Reading :=
  match r.places with
  | [] => none
  | .line path name :: outer => do
    return ⟨← r.document.assign path name v, outer, .lineEnd⟩
  | .item before :: outer => some ⟨r.document, outer, .afterItem (v :: before)⟩
  | .member before path name :: outer => do
    return ⟨r.document, outer, .afterMember (← assign v name path before)⟩

/-- Opens an array or an inline table, unless the nesting is too deep. The line is a place too. -/
def openNested (r : Reading) (stage : Stage) : Option Reading :=
  if r.places.length ≤ nestingLimit then r.goTo stage else none

def readValue (r : Reading) : Token → Option Reading
  | .word text => do r.put (← scalar? text.toList)
  | .str text => r.put (.str text)
  | .lines text => r.put (.str text)
  | .openBracket _ => r.openNested (.item [])
  | .openBrace => r.openNested (.member [])
  | _ => none

/-- A member of an inline table, whose value may be on a later line. -/
def startMember (r : Reading) (before : Members) (path : List String) (name : String) :
    Option Reading :=
  some { r with places := .member before path name :: r.places, stage := .memberValue }

def readHeader (r : Reading) (ofItem : Bool) (key : KeyReading) : Token → Option Reading
  | .closeBracket doubled => do
    let (path, name) ← key.key?
    if ofItem then
      if doubled then return { r with
        document := ← r.document.openItem path name, stage := .secondClose }
      else none
    else return { r with document := ← r.document.openTable path name, stage := .lineEnd }
  | token => do r.goTo (.header ofItem (← key.read token))

def read (r : Reading) (token : Token) : Option Reading :=
  match r.stage with
  | .lineStart =>
    match token with
    | .newline => some r
    | .openBracket true => r.goTo .secondOpen
    | .openBracket false => r.goTo (.header false .start)
    | token => do r.goTo (.lineKey (← KeyReading.start.read token))
  | .lineEnd =>
    match token with
    | .newline => r.goTo .lineStart
    | _ => none
  | .secondOpen =>
    match token with
    | .openBracket _ => r.goTo (.header true .start)
    | _ => none
  | .header ofItem key => readHeader r ofItem key token
  | .secondClose =>
    match token with
    | .closeBracket _ => r.goTo .lineEnd
    | _ => none
  | .lineKey key =>
    match token with
    | .equals => do
      let (path, name) ← key.key?
      return { r with places := [.line path name], stage := .value }
    | token => do r.goTo (.lineKey (← key.read token))
  | .value => r.readValue token
  | .item before =>
    match token with
    | .newline => some r
    | .closeBracket _ => r.put (.arr false before.reverse)
    | token => readValue { r with places := .item before :: r.places } token
  | .afterItem items =>
    match token with
    | .newline => some r
    | .comma => r.goTo (.item items)
    | .closeBracket _ => r.put (.arr false items.reverse)
    | _ => none
  | .member before =>
    match token with
    | .newline => some r
    | .closeBrace => r.put (.table .inlined before)
    | token => do r.goTo (.memberKey before (← KeyReading.start.read token))
  | .memberKey before key =>
    match token with
    | .newline => do
      let (path, name) ← key.key?
      r.goTo (.memberEquals before path name)
    | .equals => do
      let (path, name) ← key.key?
      r.startMember before path name
    | token => do r.goTo (.memberKey before (← key.read token))
  | .memberEquals before path name =>
    match token with
    | .newline => some r
    | .equals => r.startMember before path name
    | _ => none
  | .memberValue =>
    match token with
    | .newline => some r
    | token => r.readValue token
  | .afterMember members =>
    match token with
    | .newline => some r
    | .comma => r.goTo (.member members)
    | .closeBrace => r.put (.table .inlined members)
    | _ => none

def toml? (r : Reading) : Option Toml :=
  match r.stage with
  | .lineStart => some (.table .header r.document.members)
  | _ => none

end Reading

/-- The last line need not have an end. -/
def ofTokens? (ts : List Token) : Option Toml := do
  (← (ts ++ [Token.newline]).foldlM Reading.read Reading.start).toml?

def parse? (s : String) : Option Toml := do ofTokens? (← tokens? s)

end Conformance.Toml
