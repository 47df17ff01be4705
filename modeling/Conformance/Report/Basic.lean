import Conformance.Catalog.Basic
import Conformance.Report.Summary
import Conformance.Time.Instant

/-!
Reports of runs: a record per check, a summary per group, and what went wrong with the run itself.
-/
namespace Conformance

/-- What the catalog documents about a recorded check. -/
structure CheckInfo where
  description : String
  remediation : String
  reference : String
  exceptionProcess : String
  deriving DecidableEq, Repr

structure Record where
  testId : Catalog.ClaimId
  state : CheckState
  startedAt : Option Time.Instant
  endedAt : Option Time.Instant
  /-- Whole seconds, without the fraction. -/
  duration : Int64
  reason : String
  output : String
  details : String
  categories : Catalog.Categories
  info : CheckInfo
  deriving DecidableEq, Repr

/-- Records by the id of their check. -/
abbrev Results := Keyed Record

namespace Results

def countState (results : Results) (state : CheckState) : Nat :=
  (results.values.filter (·.state == state)).length

/-- The suites of the recorded checks, each once, in order. -/
def suites (results : Results) : List String :=
  (Keyed.ofList (results.values.map fun r => (r.testId.suite, ()))).keys

end Results

structure GroupReport where
  name : String
  checkIds : List String
  summary : Summary
  deriving DecidableEq, Repr

structure RunReport where
  labelFilter : String
  startedAt : Time.Instant
  durationMs : UInt64
  abortReason : Option String
  errors : List String
  failedChecks : UInt64
  groups : List GroupReport
  results : Results

/-- Why the number of failed checks says nothing about a run. -/
inductive RunFailure where
  | errors (count : Nat)
  | aborted (reason : String)
  deriving DecidableEq, Repr

def RunFailure.message : RunFailure → String
  | errors count => toString count ++ " errors found in checks/groups"
  | aborted reason => "run aborted: " ++ reason

namespace RunReport

def summary (r : RunReport) : Summary := (r.groups.map (·.summary)).foldl Summary.merge .zero

def isAborted (r : RunReport) : Bool := r.abortReason.isSome

/-- The records in the order of the groups and of the checks in them. -/
def ordered (r : RunReport) : List (GroupReport × Record) :=
  r.groups.flatMap fun g => g.checkIds.filterMap fun id => (r.results.get? id).map (g, ·)

/-- The output of every failed check with its id. -/
def failedLogs (r : RunReport) : List (String × String) :=
  (r.ordered.filter (·.2.state == .failed)).map fun (_, record) =>
    (record.testId.id, record.output)

/-- The number of failed checks, or why it cannot be trusted. Errors come before an abort. -/
def result (r : RunReport) : Except RunFailure UInt64 :=
  if r.errors.isEmpty then
    match r.abortReason with
    | some reason => .error (.aborted reason)
    | none => .ok r.failedChecks
  else .error (.errors r.errors.length)

/-- 0: no check failed. 1: some did. 2: a hook or check went wrong, or the run was aborted. -/
def exitCode (r : RunReport) : Nat :=
  if !r.errors.isEmpty || r.isAborted then 2 else if 0 < r.failedChecks then 1 else 0

end RunReport

end Conformance
