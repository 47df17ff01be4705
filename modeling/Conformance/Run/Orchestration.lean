import Conformance.Report.Recording

/-!
Running all groups, one after the other. Each group runs in a worker of its own while the run waits
for the first of: its completion, a request to abort from one of its checks, an interrupt, the
deadline. An abort stops the worker before its next check, labels the checks of its group and of
every later group, and leaves the later groups unrun. The results of all groups are recorded.
-/
namespace Conformance

/-- What the thread that runs all groups may do. -/
inductive Move (κ : Type) where
  | act (op : Action κ)
  | groupCount
  /-- Begins to take in signals. -/
  | attach
  | detach
  | spawn (group : Nat) (worker : Worker κ Unit)
  /-- Waits for the group, up to the deadline. -/
  | await (group : Nat) (deadline : Option Nat)

namespace Move

variable {κ : Type}

/-- Attaching answers with the number of the run. -/
abbrev Resp : Move κ → Type
  | act op => op.Resp
  | groupCount => Nat
  | attach => Nat
  | detach => Unit
  | spawn .. => Unit
  | await .. => Wait

end Move

abbrev Main (κ α : Type) := Prog (@Move.Resp κ) α

namespace Engine

variable {κ : Type}

def attach (e : Engine κ) : Engine κ := { e with inbox := ⟨e.inbox.run + 1, true, []⟩ }

def detach (e : Engine κ) : Engine κ := { e with inbox := { e.inbox with listening := false } }

end Engine

namespace Run

variable {κ : Type}

def move (op : Move κ) : Main κ op.Resp := Prog.request op

def act (op : Action κ) : Main κ op.Resp := move (.act op)

def ask (op : Request κ) : Main κ op.Resp := act (.request op)

def ofCallback {α : Type} (p : Callback κ α) : Main κ α :=
  p.lift (fun op => Move.act (.request op)) fun _ answer => answer

/-- A panic that escapes from the group run is an error of the group. -/
def outcomeOf (name : String) : Except Panic Outcome → Outcome
  | .ok outcome => outcome
  | .error panic => ⟨[.failure name ("worker panicked: " ++ panic.message)], 0⟩

def worker (b : Behaviour κ) (run g : Nat) (filter : Label.Filter) (token : Nat) :
    Worker κ Unit := do
  let name ← Worker.act (.groupName g)
  let result ← (Group.run b g filter token (some ⟨run, g⟩)).guarded
  Worker.act (.send run (.done g (outcomeOf name result)))

/-- What is known of a run between two groups. -/
structure Progress where
  abort : Option String
  errors : List GroupError
  failed : Nat
  results : Results

/-- What is the same for all groups of one run. -/
structure Plan (κ : Type) where
  behaviour : Behaviour κ
  run : Nat
  filter : Label.Filter
  deadline : Option Nat
  catalog : Catalog

def isPast (deadline : Option Nat) (time : Nat) : Bool :=
  match deadline with
  | some d => d ≤ time
  | none => false

def labelGroup (p : Plan κ) (s : Progress) (g : Nat) (reason : String) : Main κ Progress := do
  ofCallback (Group.labelAborted g p.filter reason)
  return { s with abort := some reason }

/-- Runs a group, unless the run has been aborted or is past its deadline. -/
def runGroup (p : Plan κ) (s : Progress) (g : Nat) : Main κ Progress := do
  let time ← act .now
  match s.abort with
  | some reason => labelGroup p s g reason
  | none =>
    if isPast p.deadline time then labelGroup p s g timeoutReason
    else do
      let token ← act (.newToken g)
      move (.spawn g (worker p.behaviour p.run g p.filter token))
      match ← move (.await g p.deadline) with
      | .done outcome =>
        return { s with errors := s.errors ++ outcome.errors, failed := s.failed + outcome.failed }
      | .abort reason =>
        act (.setToken token)
        labelGroup p s g reason

def runGroups (p : Plan κ) (s : Progress) :
    List Nat → Main κ (Progress × Option Catalog.MissingEntry)
  | [] => .done (s, none)
  | g :: rest => do
    let s ← runGroup p s g
    let (results, missing) ← ofCallback (Recording.recordGroup p.catalog s.results g)
    let s := { s with results := results }
    match missing with
    | some missing => return (s, some missing)
    | none => runGroups p s rest

def statesOf : List (Group.Member κ) → Main κ (List CheckState)
  | [] => .done []
  | m :: rest => do
    let status ← ask (.status m.1)
    return status.state :: (← statesOf rest)

/-- The states are those of this moment, not those recorded. -/
def reportGroup (g : Nat) : Main κ GroupReport := do
  let name ← act (.groupName g)
  let checks ← ask (.checks g)
  return ⟨name, checks.map Check.id, .ofStates (← statesOf (Group.members g checks))⟩

def reportGroups : List Nat → Main κ (List GroupReport)
  | [] => .done []
  | g :: rest => do
    let report ← reportGroup g
    return report :: (← reportGroups rest)

def report (p : Plan κ) (s : Progress) (began : Nat) (groups : List Nat) : Main κ RunReport := do
  let reports ← reportGroups groups
  let ended ← act .now
  return {
    labelFilter := p.filter.source
    startedAt := .ofNanos began
    durationMs := .ofNat ((ended - began) / 1000000)
    abortReason := s.abort
    errors := s.errors.map GroupError.text
    failedChecks := .ofNat s.failed
    groups := reports
    results := s.results }

/-- The results after the run, and its report unless a check has no catalog entry. A run without a
time limit has no deadline. -/
def run (b : Behaviour κ) (filter : Label.Filter) (limit : Option Nat) (catalog : Catalog)
    (results : Results) : Main κ (Results × Except Catalog.MissingEntry RunReport) := do
  let number ← move .attach
  let began ← act .now
  let plan : Plan κ := ⟨b, number, filter, limit.map (began + ·), catalog⟩
  let groups := List.range (← move .groupCount)
  let (progress, missing) ← runGroups plan ⟨none, [], 0, results⟩ groups
  match missing with
  | some missing =>
    move .detach
    return (progress.results, .error missing)
  | none =>
    let report ← report plan progress began groups
    move .detach
    return (progress.results, .ok report)

end Run

end Conformance
