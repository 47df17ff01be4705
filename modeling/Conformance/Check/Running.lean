import Conformance.Run.Action

/-!
Running one check: its skip predicates, and its three phases. The phases run in order up to the
first that fails. The times are stamped around them on every way out, a panic included.
-/
namespace Conformance

inductive Phase where
  | before
  | body
  | after
  deriving DecidableEq, Repr

namespace Phase

def name : Phase → String
  | before => "before check"
  | body => "check"
  | after => "after check"

def call (check : CheckRef) : Phase → Call
  | before => .before check
  | body => .body check
  | after => .after check

end Phase

/-- Why a run of a check did not end well. -/
inductive RunFault where
  | priorFault (fault : BuildFault)
  | missingBody (id : String)
  | inPhase (id : String) (phase : Phase) (cause : Failure)
  | aborted (message : String)
  deriving DecidableEq, Repr

/-- The text of a fault, or the panic that asking for it raises. -/
def RunFault.text {Op : Type} {Resp : Op → Type} : RunFault → Prog Resp String
  | priorFault fault =>
    .done ("unable to run due to a previously existing error: " ++ fault.message)
  | missingBody id => .done ("check " ++ id ++ " has no check function")
  | inPhase id phase cause =>
    cause.text.bind fun text =>
      .done ("check " ++ id ++ " failed in " ++ phase.name ++ " function: " ++ text)
  | aborted message => .done message

variable {κ : Type}

/-- A request to abort is recognised in whatever contexts it is wrapped. -/
def RunFault.ofFailure (id : String) (phase : Phase) (failure : Failure) : RunFault :=
  match failure.abortMessage? with
  | some message => .aborted message
  | none => .inPhase id phase failure

namespace Running

/-- The reasons of the predicates from the `index`-th on, after those given so far, or the decision
that a panic brings about at once. -/
def excusesFrom (b : Behaviour κ) (r : CheckRef) (index : Nat) (given : List String) :
    List κ → Worker κ (List String ⊕ String)
  | [] => .done (.inl given)
  | callback :: rest => do
    let call := Call.skip r index
    match ← Worker.call call (b.excuse callback call) with
    | .ok (some reason) => excusesFrom b r (index + 1) (given ++ [reason]) rest
    | .ok none => excusesFrom b r (index + 1) given rest
    | .error panic =>
      let place := "(idx=" ++ toString index ++ ")"
      Worker.ask (.write r .error
        ("Skip check function " ++ place ++ " panic'ed: " ++ panic.text))
      return .inr ("skipCheckFn " ++ place ++ " panic:\n" ++ panic.text)

/-- Given the reasons that the predicates gave, whether they suffice, and all of them joined. -/
def combineExcuses (mode : SkipMode) (predicates : Nat) (reasons : List String) : Option String :=
  if reasons.isEmpty then none
  else match mode with
    | .any => some (", ".intercalate reasons)
    | .all => if reasons.length = predicates then some (", ".intercalate reasons) else none

/-- The reason for which a check is to be skipped. -/
def skipDecision (b : Behaviour κ) (r : CheckRef) (c : Check κ) : Worker κ (Option String) := do
  match ← excusesFrom b r 0 [] c.skips with
  | .inr reason => return some reason
  | .inl reasons => return combineExcuses c.skipMode c.skips.length reasons

def runPhase (b : Behaviour κ) (r : CheckRef) (id : String) (phase : Phase) (callback : κ) :
    Worker κ (Except RunFault Unit) := do
  let call := phase.call r
  Worker.act (.enter call)
  match ← Worker.ofCallback (b.act callback call) with
  | .ok () => return .ok ()
  | .error failure => return .error (.ofFailure id phase failure)

/-- The phases in order, up to the first that fails. -/
def runPhases (b : Behaviour κ) (r : CheckRef) (id : String) :
    List (Phase × κ) → Worker κ (Except RunFault Unit)
  | [] => .done (.ok ())
  | (phase, callback) :: rest => do
    match ← runPhase b r id phase callback with
    | .ok () => runPhases b r id rest
    | .error fault => return .error fault

def phases (c : Check κ) (body : κ) : List (Phase × κ) :=
  (c.before.toList.map (Phase.before, ·)) ++ [(.body, body)] ++
    (c.after.toList.map (Phase.after, ·))

/-- Going over the time limit is logged, and has no other effect. -/
def finish (r : CheckRef) (c : Check κ) (began : Nat) : Worker κ Unit := do
  Worker.act (.finish r)
  match c.timeout with
  | none => return ()
  | some limit =>
    let elapsed := (← Worker.act .now) - began
    if limit < elapsed then
      Worker.ask (.write r .warn ("Check " ++ c.id ++ " took " ++ Time.spanText elapsed ++
        ", exceeding its timeout of " ++ Time.spanText limit))

def run (b : Behaviour κ) (r : CheckRef) (c : Check κ) : Worker κ (Except RunFault Unit) :=
  match c.fault, c.body with
  | some fault, _ => return .error (.priorFault fault)
  | none, none => return .error (.missingBody c.id)
  | none, some body => do
    let began ← Worker.act (.begin r)
    let result ← (runPhases b r c.id (phases c body)).guarded
    finish r c began
    match result with
    | .ok result => return result
    | .error panic => .panic panic

end Running

end Conformance
