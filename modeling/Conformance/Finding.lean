import Conformance.Json.Printer

/-!
Findings: what a check has to say about the objects that it inspected, as a type and a list of
facts. A check's findings are rendered as one JSON document.
-/
namespace Conformance

structure Finding where
  kind : String
  keys : List String
  values : List String
  deriving DecidableEq, Repr

namespace Finding

/-- The first fact gives the reason why the object complies, or why it does not. -/
def new (kind reason : String) (compliant : Bool) : Finding :=
  ⟨kind, [if compliant then "Reason For Compliance" else "Reason For Non Compliance"], [reason]⟩

def withField (f : Finding) (key value : String) : Finding :=
  { f with keys := f.keys ++ [key], values := f.values ++ [value] }

def onNode (kind node reason : String) (compliant : Bool) : Finding :=
  (new kind reason compliant).withField "Node Name" node

def node (node reason : String) (compliant : Bool) : Finding := onNode "Node" node reason compliant

def kernelTaint (node reason : String) (compliant : Bool) : Finding :=
  onNode "Taint" node reason compliant

/-- The value at the first place of `key`. -/
def field? (f : Finding) (key : String) : Option String := do
  f.values[(← f.keys.findIdx? (· == key))]?

def toJson (f : Finding) : Json :=
  .obj [("ObjectType", .str f.kind), ("ObjectFieldsKeys", .strings f.keys),
    ("ObjectFieldsValues", .strings f.values)]

end Finding

def findingsJson (compliant nonCompliant : List Finding) : Json :=
  .obj [("CompliantObjectsOut", .arr (compliant.map Finding.toJson)),
    ("NonCompliantObjectsOut", .arr (nonCompliant.map Finding.toJson))]

def renderFindings (compliant nonCompliant : List Finding) : String :=
  (findingsJson compliant nonCompliant).compact

end Conformance
