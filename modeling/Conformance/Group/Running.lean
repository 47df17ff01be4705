import Conformance.Check.Running
import Conformance.Label.Filter

/-!
Running the checks of a group that a label filter selects. A failing hook or check makes the check
in hand an error and skips the ones after it; a request to abort leaves them to the one who aborts
the run. The hook after all checks is called exactly once whenever a check was selected.
-/
namespace Conformance

namespace Group

variable {κ : Type}

def notMatching : String := "not matching labels"

/-- A check of the group with its place. -/
abbrev Member (κ : Type) := CheckRef × Check κ

def membersFrom (g index : Nat) : List (Check κ) → List (Member κ)
  | [] => []
  | c :: rest => (⟨g, index⟩, c) :: membersFrom g (index + 1) rest

def members (g : Nat) (checks : List (Check κ)) : List (Member κ) := membersFrom g 0 checks

def skipCheck (m : Member κ) (reason : String) : Worker κ Unit := do
  Worker.ask (.write m.1 .info ("Skipping check " ++ m.2.id ++ ", reason: " ++ reason))
  Worker.ask (.judge m.1 (.skipped reason))

def skipAll (reason : String) : List (Member κ) → Worker κ Unit
  | [] => .done ()
  | m :: rest => do
    skipCheck m reason
    skipAll reason rest

/-- The members that the filter selects; the others are skipped. -/
def select (filter : Label.Filter) : List (Member κ) → Worker κ (List (Member κ))
  | [] => .done []
  | m :: rest =>
    if filter.selects m.2.labels then do
      return m :: (← select filter rest)
    else do
      skipCheck m notMatching
      select filter rest

/-- What is the same for all checks of one group run. -/
structure Setting (κ : Type) where
  behaviour : Behaviour κ
  group : Nat
  name : String
  hooks : Hooks κ
  token : Nat
  handle : Option AbortHandle

/-- A failure of the given kind in the hands of `current`, before `remaining` have run. -/
def fail (s : Setting κ) (kind message : String) (current : CheckRef)
    (remaining : List (Member κ)) : Worker κ GroupError := do
  Worker.ask (.judge current (.error (kind ++ ": " ++ message)))
  skipAll ("group " ++ s.name ++ " " ++ kind) remaining
  return .failure s.name kind

def runHook (s : Setting κ) (name : String) (hook : Option κ) (call : Call) (current : CheckRef)
    (remaining : List (Member κ)) : Worker κ (Option GroupError) :=
  match hook with
  | none => .done none
  | some callback => do
    match ← Worker.call call (s.behaviour.act callback call) with
    | .ok (.ok ()) => return none
    | .ok (.error failure) =>
      let text ← failure.text
      return some (← fail s (name ++ " function unexpected error") text current remaining)
    | .error panic =>
      return some (← fail s (name ++ " function panicked") ("\n: " ++ panic.text) current remaining)

def runCheck (s : Setting κ) (m : Member κ) (remaining : List (Member κ)) :
    Worker κ (Option GroupError) := do
  match ← (Running.run s.behaviour m.1 m.2).guarded with
  | .ok (.ok ()) => return none
  | .ok (.error (.aborted message)) => return some (.aborted message)
  | .ok (.error fault) =>
    let text ← fault.text
    Worker.ask (.write m.1 .error
      ("Unexpected error while running check " ++ m.2.id ++ " function: " ++ text))
    return some (← fail s ("check " ++ m.2.id ++ " function unexpected error") text m.1 remaining)
  | .error panic =>
    Worker.ask (.write m.1 .error
      ("Panic while running check " ++ m.2.id ++ " function:\n" ++ panic.text))
    return some
      (← fail s ("check " ++ m.2.id ++ " function panic") panic.text m.1 remaining)

/-- Runs the check unless its predicates decide to skip it. -/
def runUnlessExcused (s : Setting κ) (m : Member κ) (remaining : List (Member κ)) :
    Worker κ (Option GroupError) := do
  match ← Running.skipDecision s.behaviour m.1 m.2 with
  | some reason =>
    skipCheck m reason
    return none
  | none =>
    match s.handle with
    | some handle => Worker.act (.grant m.1 handle)
    | none => pure ()
    runCheck s m remaining

/-- One check with the hooks around it, and the errors on the way. The hook after a check is called
even when the one before it failed. -/
def iteration (s : Setting κ) (m : Member κ) (remaining : List (Member κ)) :
    Worker κ (List GroupError) := do
  let before ← runHook s "beforeEach" s.hooks.beforeEach (.beforeEach m.1) m.1 remaining
  let body ← if before.isNone then runUnlessExcused s m remaining else pure none
  let after ← runHook s "afterEach" s.hooks.afterEach (.afterEach m.1) m.1 remaining
  return before.toList ++ body.toList ++ after.toList

/-- The checks from the `index`-th selected one on, up to a stop or the first error. -/
def runFrom (s : Setting κ) (index failed : Nat) : List (Member κ) → Worker κ Outcome
  | [] => .done ⟨[], failed⟩
  | m :: remaining => do
    if ← Worker.act (.stopped s.token) then
      return ⟨[], failed⟩
    let errors ← iteration s m remaining
    if !errors.isEmpty then
      return ⟨errors, failed⟩
    let status ← Worker.ask (.status m.1)
    Worker.act (.setCursor s.group (some (index + 1)))
    runFrom s (index + 1) (if status.state = .failed then failed + 1 else failed) remaining

def runSelected (s : Setting κ) (first : Member κ) (rest : List (Member κ)) : Worker κ Outcome := do
  let selected := first :: rest
  let refs := selected.map Prod.fst
  let last := (selected.getLast (List.cons_ne_nil first rest)).1
  let before ←
    runHook s "beforeAll" s.hooks.beforeAll (.beforeAll s.group refs) first.1 selected
  let outcome ← match before with
    | some error => pure ⟨[error], 0⟩
    | none => do
      Worker.act (.setCursor s.group (some 0))
      runFrom s 0 0 selected
  let after ← runHook s "afterAll" s.hooks.afterAll (.afterAll s.group refs) last []
  return ⟨outcome.errors ++ after.toList, outcome.failed⟩

def run (b : Behaviour κ) (g : Nat) (filter : Label.Filter) (token : Nat)
    (handle : Option AbortHandle) : Worker κ Outcome := do
  Worker.act (.setCursor g none)
  let checks ← Worker.ask (.checks g)
  match ← select filter (members g checks) with
  | [] => return ⟨[], 0⟩
  | first :: rest =>
    let hooks ← Worker.act (.hooks g)
    let name ← Worker.act (.groupName g)
    runSelected ⟨b, g, name, hooks, token, handle⟩ first rest

/-- How the checks of an aborted group are labelled, from the one whose place among the selected
ones is `rank`: the one at the cursor is aborted, the ones after it are skipped. -/
def labelFrom (filter : Label.Filter) (reason : String) (cursor : Option Nat) (rank : Nat) :
    List (Member κ) → Callback κ Unit
  | [] => .done ()
  | m :: rest =>
    if filter.selects m.2.labels then do
      match cursor with
      | none => Callback.ask (.judge m.1 (.skipped reason))
      | some place =>
        if rank = place then Callback.ask (.judge m.1 (.aborted reason))
        else if place < rank then Callback.ask (.judge m.1 (.skipped reason))
        else pure ()
      labelFrom filter reason cursor (rank + 1) rest
    else do
      Callback.ask (.judge m.1 (.skipped notMatching))
      labelFrom filter reason cursor rank rest

/-- The cursor is read once. When no check was started, every selected check is skipped. -/
def labelAborted (g : Nat) (filter : Label.Filter) (reason : String) : Callback κ Unit := do
  let cursor ← Callback.ask (.cursor g)
  let checks ← Callback.ask (.checks g)
  labelFrom filter reason cursor 0 (members g checks)

def describe (g : Group κ) : String :=
  let cursor := match g.cursor with
    | none => "None"
    | some n => "Some(" ++ toString n ++ ")"
  "ChecksGroup \x7b name: " ++ Text.quoted g.name ++ ", checks: " ++ toString g.checks.length
    ++ ", current_running_check_idx: " ++ cursor ++ " \x7d"

end Group

end Conformance
