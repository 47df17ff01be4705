import Conformance.Check.Definition
import Conformance.Check.Log
import Conformance.Check.Status
import Conformance.Run.Signal

/-!
The state of the engine: groups of registered checks with their statuses and logs, the signals of
the run in flight, the stop tokens handed out, the clock, and the history of the callbacks called.
Checks are named by the group and the place at which they were registered. Neither groups nor
checks are ever taken away.
-/
namespace Conformance

structure CheckRef where
  group : Nat
  index : Nat
  deriving DecidableEq, Repr

/-- One call of a callback. -/
inductive Call where
  | beforeAll (group : Nat) (checks : List CheckRef)
  | afterAll (group : Nat) (checks : List CheckRef)
  | beforeEach (check : CheckRef)
  | afterEach (check : CheckRef)
  | skip (check : CheckRef) (index : Nat)
  | before (check : CheckRef)
  | body (check : CheckRef)
  | after (check : CheckRef)
  deriving DecidableEq, Repr

inductive Happening where
  | called (call : Call)
  | note (text : String)
  deriving DecidableEq, Repr

/-- With this a check can ask for an abort of the run that handed it out. -/
structure AbortHandle where
  run : Nat
  group : Nat
  deriving DecidableEq, Repr

structure Hooks (κ : Type) where
  beforeAll : Option κ
  afterAll : Option κ
  beforeEach : Option κ
  afterEach : Option κ

def Hooks.none {κ : Type} : Hooks κ := ⟨.none, .none, .none, .none⟩

/-- A check in a group, with all that changes about it. -/
structure Registered (κ : Type) where
  check : Check κ
  status : Status
  log : List LogEntry
  handle : Option AbortHandle

def Registered.fresh {κ : Type} (check : Check κ) : Registered κ := ⟨check, .start, [], none⟩

structure Group (κ : Type) where
  name : String
  hooks : Hooks κ
  checks : List (Registered κ)
  /-- The place of the check in flight among the checks selected by the latest run. -/
  cursor : Option Nat
  /-- The stop token of the latest run. -/
  token : Option Nat

def Group.fresh {κ : Type} (name : String) : Group κ := ⟨name, .none, [], none, none⟩

/-- The signals of the latest run, which are taken in only while it is in flight. -/
structure Inbox where
  run : Nat
  listening : Bool
  signals : List Signal

structure Engine (κ : Type) where
  groups : List (Group κ)
  /-- Every check, in the order in which the checks were registered. -/
  registered : List CheckRef
  inbox : Inbox
  /-- Whether each stop token is set. -/
  tokens : List Bool
  /-- Nanoseconds since 1970. -/
  clock : Nat
  history : List Happening

namespace Engine

variable {κ : Type}

def start (clock : Nat) : Engine κ := ⟨[], [], ⟨0, false, []⟩, [], clock, []⟩

/-- Looking at the clock takes a moment, so that no two looks show the same time. -/
def moment : Nat := 1000

def tick (e : Engine κ) : Engine κ := { e with clock := e.clock + moment }

def now (e : Engine κ) : Time.Instant := .ofNanos e.clock

def group? (e : Engine κ) (g : Nat) : Option (Group κ) := e.groups[g]?

def check? (e : Engine κ) (r : CheckRef) : Option (Registered κ) := do
  (← e.group? r.group).checks[r.index]?

def checksOf (e : Engine κ) (g : Nat) : List (Registered κ) :=
  match e.group? g with
  | some group => group.checks
  | none => []

def modifyGroup (e : Engine κ) (g : Nat) (f : Group κ → Group κ) : Engine κ :=
  { e with groups := e.groups.modify g f }

def modifyCheck (e : Engine κ) (r : CheckRef) (f : Registered κ → Registered κ) : Engine κ :=
  e.modifyGroup r.group fun group => { group with checks := group.checks.modify r.index f }

def happen (e : Engine κ) (h : Happening) : Engine κ := { e with history := e.history ++ [h] }

def log (e : Engine κ) (r : CheckRef) (level : LogLevel) (message : String) : Engine κ :=
  (e.modifyCheck r fun c => { c with log := c.log ++ [⟨level, e.now, message⟩] }).tick

/-- A verdict on a check, with the warning that the check logs about it. -/
def judge (e : Engine κ) (r : CheckRef) (verdict : Verdict) : Engine κ :=
  match e.check? r with
  | none => e
  | some c =>
    let judged := e.modifyCheck r fun c => { c with status := c.status.apply verdict }
    match c.status.warning? c.check.id verdict with
    | none => judged
    | some warning => judged.log r .warn warning

/-- A signal to a run arrives only while that run is in flight. -/
def send (e : Engine κ) (run : Nat) (signal : Signal) : Engine κ :=
  if e.inbox.listening && e.inbox.run == run then
    { e with inbox := { e.inbox with signals := e.inbox.signals ++ [signal] } }
  else e

def register (e : Engine κ) (g : Nat) (check : Check κ) : Engine κ :=
  match e.group? g with
  | none => e
  | some group =>
    { e.modifyGroup g fun group => { group with checks := group.checks ++ [.fresh check] } with
      registered := e.registered ++ [⟨g, group.checks.length⟩] }

def setToken (e : Engine κ) (token : Nat) : Engine κ :=
  { e with tokens := e.tokens.set token true }

def tokenSet (e : Engine κ) (token : Nat) : Bool := e.tokens.getD token false

end Engine

end Conformance
