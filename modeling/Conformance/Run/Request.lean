import Conformance.Failure
import Conformance.Run.Engine

/-!
What callbacks may ask of the engine, one request at a time. A callback is a program of requests;
which program belongs to which callback is given by a behaviour.
-/
namespace Conformance

inductive Request (κ : Type) where
  | groupNames
  | checks (group : Nat)
  | registered
  | status (check : CheckRef)
  | log (check : CheckRef)
  | cursor (group : Nat)
  | history
  | note (text : String)
  | write (check : CheckRef) (level : LogLevel) (message : String)
  | judge (check : CheckRef) (verdict : Verdict)
  /-- Asks for an abort of the run that is running the check. -/
  | abort (check : CheckRef) (reason : String)
  /-- Sets the stop token of the latest run of a group. -/
  | stop (group : Nat)
  | register (group : Nat) (check : Check κ)
  | interrupt
  | sleep (nanos : Nat)
  /-- Waits until no run is in flight. -/
  | pause

namespace Request

variable {κ : Type}

/-- An abort answers with its message, an interrupt with whether a run was listening. -/
abbrev Resp : Request κ → Type
  | groupNames => List String
  | checks _ => List (Check κ)
  | registered => List CheckRef
  | status _ => Status
  | log _ => List LogEntry
  | cursor _ => Option Nat
  | history => List Happening
  | note _ => Unit
  | write .. => Unit
  | judge .. => Unit
  | abort .. => String
  | stop _ => Unit
  | register .. => Unit
  | interrupt => Bool
  | sleep _ => Unit
  | pause => Unit

def abortMessage (id reason : String) : String := id ++ " called abort: " ++ reason

def apply (op : Request κ) (e : Engine κ) : op.Resp × Engine κ :=
  match op with
  | groupNames => (e.groups.map Group.name, e)
  | checks g => ((e.checksOf g).map Registered.check, e)
  | registered => (e.registered, e)
  | status r => (match e.check? r with | some c => c.status | none => .start, e)
  | log r => (match e.check? r with | some c => c.log | none => [], e)
  | cursor g => ((e.group? g).bind Group.cursor, e)
  | history => (e.history, e)
  | note text => ((), e.happen (.note text))
  | write r level message => ((), e.log r level message)
  | judge r verdict => ((), e.judge r verdict)
  | abort r reason =>
    match e.check? r with
    | none => ("", e)
    | some c =>
      let message := abortMessage c.check.id reason
      match c.handle with
      | some handle => (message, e.send handle.run (.abort handle.group message))
      | none => (message, e.log r .warn "abort requested outside of a run")
  | stop g =>
    match (e.group? g).bind Group.token with
    | some token => ((), e.setToken token)
    | none => ((), e)
  | register g check => ((), e.register g check)
  | interrupt => (e.inbox.listening, e.send e.inbox.run .interrupted)
  | sleep nanos => ((), { e with clock := e.clock + nanos })
  | pause => ((), e)

end Request

/-- A program that a callback may be. -/
abbrev Callback (κ α : Type) := Prog (@Request.Resp κ) α

def Callback.ask {κ : Type} (op : Request κ) : Callback κ op.Resp := Prog.request op

/-- What the callbacks named by `κ` do when they are called. -/
structure Behaviour (κ : Type) where
  act : κ → Call → Callback κ (Except Failure Unit)
  /-- The reason for a skip, if the predicate asks for one. -/
  excuse : κ → Call → Callback κ (Option String)

end Conformance
