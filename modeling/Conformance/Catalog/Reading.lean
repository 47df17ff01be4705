import Conformance.Catalog.Basic
import Conformance.DataFormat

/-!
Catalog drafts as they are written in files of any data format.
-/
namespace Conformance.Catalog

open DataFormat

variable {δ : Type} [DataFormat δ]

def Classification.read? (v : δ) : Option Classification := do ofName? (← case? v)

def Categories.names : List String := ["Extended", "FarEdge", "NonTelco", "Telco"]

def Categories.read? (v : δ) : Option Categories := do
  match ← fields? names v with
  | [extended, farEdge, nonTelco, telco] =>
    return ⟨← optional? Classification.read? extended, ← optional? Classification.read? farEdge,
      ← optional? Classification.read? nonTelco, ← optional? Classification.read? telco⟩
  | _ => .none

def Draft.fieldNames : List String :=
  ["test_id", "suite", "description", "remediation", "exception_process",
    "best_practice_reference", "qe", "category_classification", "tags"]

/-- Id, suite and description have to be given. -/
def Draft.read? (v : δ) : Option Draft := do
  match ← fields? fieldNames v with
  | [some testId, some suite, some description, remediation, process, reference, qe, categories,
      tags] =>
    return {
      testId := ← text? testId
      suite := ← text? suite
      description := ← text? description
      remediation := ← default? text? "" remediation
      exceptionProcess := ← default? text? "" process
      reference := ← default? text? "" reference
      qe := ← default? flag? false qe
      categories := ← default? Categories.read? .none categories
      tags := ← default? (list? text?) [] tags }
  | _ => none

/-- The drafts of a catalog file, which are its entries. -/
def readDrafts? (v : δ) : Option (List Draft) := do
  match ← fields? ["entry"] v with
  | [entries] => default? (list? Draft.read?) [] entries
  | _ => none

end Conformance.Catalog
