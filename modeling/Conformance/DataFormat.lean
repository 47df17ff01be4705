/-!
Reading records from the values of a data format. A format says which values are texts, flags and
lists, and which fields of a record a value gives; everything else is read from those.
-/
namespace Conformance

class DataFormat (δ : Type) where
  isNull : δ → Bool
  text? : δ → Option String
  flag? : δ → Option Bool
  items? : δ → Option (List δ)
  /-- The fields of a record with these names, each of which may be missing. -/
  fields? : List String → δ → Option (List (Option δ))
  /-- The name of a case without contents. -/
  case? : δ → Option String

namespace DataFormat

variable {δ : Type} [DataFormat δ] {α : Type}

def list? (f : δ → Option α) (v : δ) : Option (List α) := do (← items? v).mapM f

/-- Nothing for a missing field, and for one without a value. -/
def optional? (f : δ → Option α) : Option δ → Option (Option α)
  | none => some none
  | some v => if isNull v then some none else (f v).map some

omit [DataFormat δ] in
/-- The default for a missing field. -/
def default? (f : δ → Option α) (value : α) : Option δ → Option α
  | none => some value
  | some v => f v

end DataFormat

end Conformance
