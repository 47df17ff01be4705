import Conformance.Catalog.Entry
import Conformance.Keyed

/-!
The catalog: the entries of all documented checks by id. Later entries take the place of earlier
ones with the same id.
-/
namespace Conformance

structure Catalog where
  entries : Keyed Catalog.Entry

namespace Catalog

def empty : Catalog := ⟨.empty⟩

def insert (c : Catalog) (entry : Entry) : Catalog := ⟨c.entries.insert entry.identifier.id entry⟩

def add (c : Catalog) (draft : Draft) : Catalog := c.insert draft.toEntry

def addAll (c : Catalog) (drafts : List Draft) : Catalog := drafts.foldl add c

def ofDrafts (drafts : List Draft) : Catalog := empty.addAll drafts

def merge (c other : Catalog) : Catalog := ⟨c.entries.insertAll other.entries.entries⟩

/-- A check without an entry cannot be reported. -/
structure MissingEntry where
  id : String
  deriving DecidableEq, Repr

def MissingEntry.message (m : MissingEntry) : String := "check " ++ m.id ++ " has no catalog entry"

def lookup (c : Catalog) (id : String) : Except MissingEntry Entry :=
  match c.entries.get? id with
  | some entry => .ok entry
  | none => .error ⟨id⟩

def contains (c : Catalog) (id : String) : Bool := (c.entries.get? id).isSome

def size (c : Catalog) : Nat := c.entries.size

def list (c : Catalog) : List Entry := c.entries.values

end Catalog

end Conformance
