import Conformance.Label.Parser

/-!
Label filters: an expression together with the text it was read from. A filter selects the checks
whose labels satisfy it. The word that stands for every configured tag is spelled out before
reading.
-/
namespace Conformance.Label

structure Filter where
  source : String
  root : Expr

def Filter.parse (text : String) : Except Fault Filter := do
  let root ← Expr.ofLexemes (← lexemes text)
  return ⟨text, root⟩

def Filter.selects (filter : Filter) (labels : List String) : Bool := filter.root.holds labels

/-- A filter of `all` stands for the tags, any of which may be carried. -/
def expandAll (filter : String) (tags : List String) : String :=
  if Text.trim filter = "all" then ",".intercalate tags else filter

end Conformance.Label
