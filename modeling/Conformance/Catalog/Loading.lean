import Conformance.Catalog.Reading
import Conformance.Files.Tree
import Conformance.Json.Fields
import Conformance.Json.Reader
import Conformance.Toml.Reader

/-!
Catalogs from files. The ending of the file's name decides how it is read.
-/
namespace Conformance.Catalog

inductive LoadFault where
  | unreadable (path : String) (fault : FileFault)
  | invalidJson (path : String)
  | invalidToml (path : String)
  | unsupported (path : String)
  deriving DecidableEq, Repr

namespace LoadFault

def message : LoadFault → String
  | unreadable path fault => "failed to read catalog " ++ path ++ ": " ++ fault.message
  | invalidJson path => "invalid JSON catalog " ++ path ++ ": "
  | invalidToml path => "invalid TOML catalog " ++ path ++ ": "
  | unsupported path =>
    "unsupported catalog format for " ++ path ++ ", expected .json or .toml"

/-- The message, and that of the fault behind it. -/
def messages (f : LoadFault) : List String :=
  match f with
  | unreadable _ fault => [f.message, fault.message]
  | _ => [f.message]

end LoadFault

def ofJsonText (text path : String) : Except LoadFault Catalog :=
  match (Json.parse? text).bind readDrafts? with
  | some drafts => .ok (.ofDrafts drafts)
  | none => .error (.invalidJson path)

def ofTomlText (text path : String) : Except LoadFault Catalog :=
  match (Toml.parse? text).bind readDrafts? with
  | some drafts => .ok (.ofDrafts drafts)
  | none => .error (.invalidToml path)

def load (files : FileTree) (path : String) : Except LoadFault Catalog := do
  let file := FilePath.ofText path
  let text ← (files.readText file).mapError (.unreadable path)
  let ending := file.extension?
  if ending = some (Text.toUtf8 "json") then ofJsonText text path
  else if ending = some (Text.toUtf8 "toml") then ofTomlText text path
  else .error (.unsupported path)

/-- What a step does to a catalog: when it fails the catalog stays as it was. -/
def mergeLoaded {ε : Type} (c : Catalog) (loaded : Except ε Catalog) : Catalog :=
  match loaded with
  | .ok other => c.merge other
  | .error _ => c

end Conformance.Catalog
