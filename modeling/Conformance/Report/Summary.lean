import Conformance.Check.State

/-!
Counts of checks by state.
-/
namespace Conformance

structure Summary where
  passed : UInt32
  failed : UInt32
  skipped : UInt32
  error : UInt32
  aborted : UInt32
  total : UInt32
  deriving DecidableEq, Repr

namespace Summary

def zero : Summary := ⟨0, 0, 0, 0, 0, 0⟩

def add (s : Summary) (state : CheckState) : Summary :=
  let s := { s with total := s.total + 1 }
  match state with
  | .passed => { s with passed := s.passed + 1 }
  | .failed => { s with failed := s.failed + 1 }
  | .skipped => { s with skipped := s.skipped + 1 }
  | .error => { s with error := s.error + 1 }
  | .aborted => { s with aborted := s.aborted + 1 }

def merge (s t : Summary) : Summary :=
  ⟨s.passed + t.passed, s.failed + t.failed, s.skipped + t.skipped, s.error + t.error,
    s.aborted + t.aborted, s.total + t.total⟩

def ofStates (states : List CheckState) : Summary := states.foldl add zero

/-- The checks that came to no result. -/
def broken (s : Summary) : UInt32 := s.error + s.aborted

end Summary

end Conformance
