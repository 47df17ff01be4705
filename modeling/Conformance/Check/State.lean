/-!
The states of a check. Every check starts as passed.
-/
namespace Conformance

inductive CheckState where
  | passed
  | failed
  | skipped
  | error
  | aborted
  deriving DecidableEq, Repr, Inhabited

namespace CheckState

def all : List CheckState := [passed, failed, skipped, error, aborted]

def name : CheckState → String
  | passed => "passed"
  | failed => "failed"
  | skipped => "skipped"
  | error => "error"
  | aborted => "aborted"

def title : CheckState → String
  | passed => "Passed"
  | failed => "Failed"
  | skipped => "Skipped"
  | error => "Error"
  | aborted => "Aborted"

def capitals : CheckState → String
  | passed => "PASSED"
  | failed => "FAILED"
  | skipped => "SKIPPED"
  | error => "ERROR"
  | aborted => "ABORTED"

def ofName? (s : String) : Option CheckState := all.find? (·.name == s)

theorem ofName?_name (state : CheckState) : ofName? state.name = some state := by
  cases state <;> decide

end CheckState

end Conformance
