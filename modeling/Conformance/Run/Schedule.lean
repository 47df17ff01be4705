import Conformance.Run.Orchestration

/-!
Runs by the clock: the worker in flight goes on until it has to wait, and only then do the signals
that it sent reach the run that waits for it. Where no signal is left, the clock moves on to the
deadline. Workers that are still waiting when the run has returned then go on to their end.
-/
namespace Conformance

namespace Schedule

variable {κ : Type}

/-- A worker waits for a pause to be over. It is overtaken in a sleep by a signal that the run
waits for, and by the deadline. -/
def waits (group : Nat) (deadline : Option Nat) : Action κ → Engine κ → Bool
  | .request .pause, e => e.inbox.listening
  | .request (.sleep nanos), e =>
    (awaitGroup group e.inbox.signals).isSome || Run.isPast deadline (e.clock + nanos)
  | _, _ => false

def goOn (group : Nat) (deadline : Option Nat) :
    List (Worker κ Unit) → Engine κ → List (Worker κ Unit) × Engine κ
  | [], e => ([], e)
  | w :: rest, e =>
    let (w, e) := w.execUntil (waits group deadline) Action.apply e
    let (rest, e) := goOn group deadline rest e
    (w :: rest, e)

/-- What the wait for a group comes to, if anything can still end it. -/
def await (group : Nat) (deadline : Option Nat) (e : Engine κ) : Option Wait × Engine κ :=
  match awaitGroup group e.inbox.signals with
  | some (wait, signals) => (some wait, { e with inbox := { e.inbox with signals := signals } })
  | none =>
    match deadline with
    | some d => (some (.abort timeoutReason), { e with clock := max e.clock d })
    | none => (none, e)

/-- A run that waits for ever gives no report either. -/
def hung : Panic := ⟨"the run waits for a group that does not end", ""⟩

def drive {α : Type} : Main κ α → List (Worker κ Unit) → Engine κ →
    Except Panic α × List (Worker κ Unit) × Engine κ
  | .done value, ws, e => (.ok value, ws, e)
  | .panic p, ws, e => (.error p, ws, e)
  | .ask (.act op) next, ws, e => drive (next (op.apply e).1) ws (op.apply e).2
  | .ask .groupCount next, ws, e => drive (next e.groups.length) ws e
  | .ask .attach next, ws, e => drive (next (e.inbox.run + 1)) ws e.attach
  | .ask .detach next, ws, e => drive (next ()) ws e.detach
  | .ask (.spawn _ w) next, ws, e => drive (next ()) (ws ++ [w]) e
  | .ask (.await g deadline) next, ws, e =>
    let after := goOn g deadline ws e
    match await g deadline after.2 with
    | (some wait, e) => drive (next wait) after.1 e
    | (none, e) => (.error hung, after.1, e)

def finish : List (Worker κ Unit) → Engine κ → Engine κ
  | [], e => e
  | w :: rest, e => finish rest (w.exec Action.apply e).2

end Schedule

end Conformance
