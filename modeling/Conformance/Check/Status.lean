import Conformance.Check.State
import Conformance.Finding
import Conformance.Time.Instant

/-!
The result of a check and how verdicts change it. An abort is final. An error gives way to an
abort only. Findings are kept as details even after an error.
-/
namespace Conformance

structure Status where
  state : CheckState
  reason : String
  details : String
  startedAt : Option Time.Instant
  endedAt : Option Time.Instant
  deriving DecidableEq, Repr, Inhabited

inductive Verdict where
  | findings (compliant nonCompliant : List Finding)
  | failed (reason : String)
  | skipped (reason : String)
  | error (reason : String)
  | aborted (reason : String)
  deriving DecidableEq, Repr

namespace Status

def start : Status := ⟨.passed, "", "", none, none⟩

def noFindings : String := "Compliant and non-compliant objects lists are empty."

/-- A state and reason that an error stands against. -/
def settle (s : Status) (state : CheckState) (reason : String) : Status :=
  if s.state = .error then s else { s with state := state, reason := reason }

/-- Any object that does not comply fails the check; no objects at all skip it. -/
def takeFindings (s : Status) (compliant nonCompliant : List Finding) : Status :=
  let rendered := renderFindings compliant nonCompliant
  let s := { s with details := rendered }
  if !nonCompliant.isEmpty then s.settle .failed rendered
  else if compliant.isEmpty then s.settle .skipped noFindings
  else s

def apply (s : Status) (verdict : Verdict) : Status :=
  if s.state = .aborted then s
  else match verdict with
    | .findings compliant nonCompliant => s.takeFindings compliant nonCompliant
    | .failed reason => s.settle .failed reason
    | .skipped reason => s.settle .skipped reason
    | .error reason => s.settle .error reason
    | .aborted reason => { s with state := .aborted, reason := reason }

/-- What a check with the given id logs as a warning about a verdict. -/
def warning? (s : Status) (id : String) (verdict : Verdict) : Option String :=
  match s.state, verdict with
  | .aborted, _ => none
  | .error, .error _ => some ("Check " ++ id ++ " result was already marked as error.")
  | .error, _ => none
  | _, .findings [] [] => some ("Check " ++ id ++
      " marked as skipped as both compliant and non-compliant objects lists are empty.")
  | _, _ => none

end Status

end Conformance
