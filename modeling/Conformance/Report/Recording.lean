import Conformance.Group.Running
import Conformance.Report.Basic

/-!
Recording checks. Every check of a group becomes a record under its id, up to the first one that
has no catalog entry. The recording itself is logged before the log is read.
-/
namespace Conformance

namespace Recording

variable {κ : Type}

def duration (startedAt endedAt : Option Time.Instant) : Int64 :=
  match startedAt, endedAt with
  | some start, some finish => .ofInt (start.secondsBetween finish)
  | _, _ => 0

def record (entry : Catalog.Entry) (state : CheckState) (id : String) (status : Status)
    (log : List LogEntry) : Record where
  testId := entry.identifier
  state := state
  startedAt := status.startedAt
  endedAt := status.endedAt
  duration := duration status.startedAt status.endedAt
  reason := status.reason
  output := logText id log
  details := status.details
  categories := entry.categories
  info := ⟨entry.description, entry.remediation, entry.reference, entry.exceptionProcess⟩

def recordMessage (state : CheckState) (id : String) : String :=
  "Recording result " ++ Text.quoted state.capitals ++ ", claimID: " ++ id

/-- The state is read before the recording is logged, all else after it. -/
def recordCheck (catalog : Catalog) (m : Group.Member κ) :
    Callback κ (Except Catalog.MissingEntry Record) :=
  match catalog.lookup m.2.id with
  | .error missing => return .error missing
  | .ok entry => do
    let state := (← Callback.ask (.status m.1)).state
    Callback.ask (.write m.1 .info (recordMessage state entry.identifier.id))
    let status ← Callback.ask (.status m.1)
    let log ← Callback.ask (.log m.1)
    return .ok (record entry state m.2.id status log)

/-- The results with the records of the members added, up to a member without an entry. -/
def recordAll (catalog : Catalog) (results : Results) :
    List (Group.Member κ) → Callback κ (Results × Option Catalog.MissingEntry)
  | [] => .done (results, none)
  | m :: rest => do
    match ← recordCheck catalog m with
    | .error missing => return (results, some missing)
    | .ok record => recordAll catalog (results.insert m.2.id record) rest

def recordGroup (catalog : Catalog) (results : Results) (g : Nat) :
    Callback κ (Results × Option Catalog.MissingEntry) := do
  let checks ← Callback.ask (.checks g)
  recordAll catalog results (Group.members g checks)

end Recording

end Conformance
