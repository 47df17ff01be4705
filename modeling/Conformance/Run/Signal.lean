/-!
Signals to a run in flight. The run waits for the group that it has started: the first signal that
concerns this group, or an interrupt, ends the wait, and signals of other groups are dropped.
-/
namespace Conformance

inductive GroupError where
  | failure (group kind : String)
  | aborted (message : String)
  deriving DecidableEq, Repr

def GroupError.text : GroupError → String
  | failure group kind => "group " ++ group ++ " " ++ kind
  | aborted message => message

/-- What a group run hands back: its errors and the number of checks that ended as failed. -/
structure Outcome where
  errors : List GroupError
  failed : Nat
  deriving DecidableEq, Repr

inductive Signal where
  | done (group : Nat) (outcome : Outcome)
  | abort (group : Nat) (reason : String)
  | interrupted
  deriving DecidableEq, Repr

/-- How waiting for a group ends. -/
inductive Wait where
  | done (outcome : Outcome)
  | abort (reason : String)
  deriving DecidableEq, Repr

def timeoutReason : String := "global time-out"

def interruptReason : String := "SIGINT/SIGTERM"

/-- What a signal means to the one who waits for a group. -/
def Signal.ends (group : Nat) : Signal → Option Wait
  | done g outcome => if g = group then some (.done outcome) else none
  | abort g reason => if g = group then some (.abort reason) else none
  | interrupted => some (.abort interruptReason)

/-- The first signal that ends the wait, with the signals after it. -/
def awaitGroup (group : Nat) : List Signal → Option (Wait × List Signal)
  | [] => none
  | signal :: rest =>
    match signal.ends group with
    | some wait => some (wait, rest)
    | none => awaitGroup group rest

end Conformance
