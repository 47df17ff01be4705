import Conformance.Run.Request

/-!
What a worker may do besides what its callbacks may: enter a callback, publish its place in the
group, look at its stop token, and stamp the times of a check.
-/
namespace Conformance

inductive Action (κ : Type) where
  | request (op : Request κ)
  | enter (call : Call)
  | groupName (group : Nat)
  | hooks (group : Nat)
  | setCursor (group : Nat) (cursor : Option Nat)
  | stopped (token : Nat)
  | grant (check : CheckRef) (handle : AbortHandle)
  | begin (check : CheckRef)
  | finish (check : CheckRef)
  | now
  | send (run : Nat) (signal : Signal)
  | newToken (group : Nat)
  | setToken (token : Nat)

namespace Action

variable {κ : Type}

/-- Beginning a check answers with the time at which it began. -/
abbrev Resp : Action κ → Type
  | request op => op.Resp
  | enter _ => Unit
  | groupName _ => String
  | hooks _ => Hooks κ
  | setCursor .. => Unit
  | stopped _ => Bool
  | grant .. => Unit
  | begin _ => Nat
  | finish _ => Unit
  | now => Nat
  | send .. => Unit
  | newToken _ => Nat
  | setToken _ => Unit

def apply (op : Action κ) (e : Engine κ) : op.Resp × Engine κ :=
  match op with
  | request op => op.apply e
  | enter call => ((), e.happen (.called call))
  | groupName g => (match e.group? g with | some group => group.name | none => "", e)
  | hooks g => (match e.group? g with | some group => group.hooks | none => .none, e)
  | setCursor g cursor => ((), e.modifyGroup g fun group => { group with cursor := cursor })
  | stopped token => (e.tokenSet token, e)
  | grant r handle => ((), e.modifyCheck r fun c => { c with handle := some handle })
  | begin r =>
    (e.clock,
      (e.modifyCheck r fun c =>
        { c with status := { c.status with startedAt := some e.now } }).tick)
  | finish r =>
    ((),
      (e.modifyCheck r fun c => { c with status := { c.status with endedAt := some e.now } }).tick)
  | now => (e.clock, e.tick)
  | send run signal => ((), e.send run signal)
  | newToken g =>
    (e.tokens.length,
      { e.modifyGroup g fun group => { group with token := some e.tokens.length } with
        tokens := e.tokens ++ [false] })
  | setToken token => ((), e.setToken token)

end Action

abbrev Worker (κ α : Type) := Prog (@Action.Resp κ) α

namespace Worker

variable {κ α : Type}

/-- A callback as a part of a worker. -/
def ofCallback (p : Callback κ α) : Worker κ α := p.lift Action.request fun _ answer => answer

def ask (op : Request κ) : Worker κ op.Resp := Prog.request (Action.request op)

def act (op : Action κ) : Worker κ op.Resp := Prog.request op

/-- Calls a callback; a panic in it goes no further. -/
def call (call : Call) (p : Callback κ α) : Worker κ (Except Panic α) := do
  act (.enter call)
  (ofCallback p).guarded

end Worker

end Conformance
