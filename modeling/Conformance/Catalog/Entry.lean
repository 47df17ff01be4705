import Conformance.Text.Blank

/-!
Catalog entries: the identifier under which a check is reported, and what is documented about it.
A draft is an entry as it is written down; what it leaves blank gets its default.
-/
namespace Conformance

namespace Catalog

structure ClaimId where
  id : String
  suite : String
  tags : String
  deriving DecidableEq, Repr

inductive Classification where
  | mandatory
  | optional
  deriving DecidableEq, Repr

namespace Classification

def name : Classification → String
  | mandatory => "Mandatory"
  | optional => "Optional"

def ofName? (s : String) : Option Classification :=
  if s = "Mandatory" then some mandatory else if s = "Optional" then some optional else none

end Classification

/-- Whether a check is required, for each kind of deployment. -/
structure Categories where
  extended : Option Classification
  farEdge : Option Classification
  nonTelco : Option Classification
  telco : Option Classification
  deriving DecidableEq, Repr

namespace Categories

def none : Categories := ⟨.none, .none, .none, .none⟩

def all (c : Classification) : Categories := ⟨some c, some c, some c, some c⟩

end Categories

structure Draft where
  testId : String
  suite : String
  description : String
  remediation : String
  exceptionProcess : String
  reference : String
  qe : Bool
  categories : Categories
  tags : List String
  deriving DecidableEq, Repr

structure Entry where
  identifier : ClaimId
  description : String
  remediation : String
  reference : String
  exceptionProcess : String
  tags : List String
  qe : Bool
  categories : Categories
  deriving DecidableEq, Repr

def commonTag : String := "common"

/-- The tags that stand for every check. -/
def defaultTags : List String := [commonTag, "extended", "faredge", "telco"]

def noDocumentedProcess : String := "There is no documented exception process for this."

def noReference : String := "No Reference Document Specified"

def checkId (suite testId : String) : String := suite ++ "-" ++ testId

def unlessBlank (text default : String) : String := if Text.isBlankText text then default else text

def Draft.toEntry (d : Draft) : Entry :=
  let tags := if d.tags.isEmpty then [commonTag] else d.tags
  { identifier := ⟨checkId d.suite d.testId, d.suite, ",".intercalate tags⟩
    description := d.description
    remediation := d.remediation
    reference := unlessBlank d.reference noReference
    exceptionProcess := unlessBlank d.exceptionProcess noDocumentedProcess
    tags := tags
    qe := d.qe
    categories := d.categories }

end Catalog

end Conformance
