import Conformance.Group.Running

/-!
Scripted callbacks: lists of steps done in order, each of which may be restricted to some checks or
to one call of the callback, and may act on another check than the one in hand. A script is data,
so that checks, hooks and whole scenarios can be written down.
-/
namespace Conformance

/-- What a scripted skip predicate does in one of its calls. -/
inductive Excuse where
  | none
  | reason (text : String)
  | panic (payload : Payload)

mutual
/-- A callback given by its steps, or a skip predicate given by its answers. Calls are counted from
the `since`-th happening on. -/
inductive Script where
  | steps (since : Nat) (list : List Step)
  | answers (list : List Excuse)

inductive Step where
  | mk (only : Option (List String)) (call : Option Nat) (target : Option String) (deed : Deed)

inductive Deed where
  | judge (verdict : Verdict)
  | write (level : LogLevel) (message : String)
  /-- Unless it is swallowed, the script ends with the error of the request. -/
  | abort (reason : String) (swallow : Bool) (contexts : List String)
  | state
  | note (text : String)
  | cursor (group : Option String)
  | fail (failure : Failure)
  | panic (payload : Payload)
  | sleep (nanos : Nat)
  | stop
  | labelAborted (group : Option String) (filter : Label.Filter) (reason : String)
  | register (group : Option String) (check : Check Script)
  | interrupt
  | block
end

instance : Inhabited Script := ⟨.answers []⟩

namespace Script

/-- Stands where a panic would show its call stack. -/
def stackMark : String := "<STACK>"

def raise (payload : Payload) : Panic := ⟨payload.message, stackMark⟩

/-- Whether two calls are calls of one callback. -/
def sameCallback : Call → Call → Bool
  | .beforeAll g _, .beforeAll g' _ => g == g'
  | .afterAll g _, .afterAll g' _ => g == g'
  | .beforeEach r, .beforeEach r' => r.group == r'.group
  | .afterEach r, .afterEach r' => r.group == r'.group
  | c, c' => c == c'

/-- How often a callback had been called before the call that is going on. -/
def callsBefore (since : Nat) (call : Call) (history : List Happening) : Nat :=
  ((history.drop since).filter fun
    | .called c => sameCallback call c
    | .note _ => false).length - 1

/-- The check in hand, if there is one. -/
def subject : Call → Option CheckRef
  | .beforeAll .. => none
  | .afterAll .. => none
  | .beforeEach r => some r
  | .afterEach r => some r
  | .skip r _ => some r
  | .before r => some r
  | .body r => some r
  | .after r => some r

def idOf (r : CheckRef) : Callback Script String := do
  let checks ← Callback.ask (.checks r.group)
  return match checks[r.index]? with
    | some c => c.id
    | none => ""

/-- The first group of that name; without a name, the first group. -/
def findGroup (name : Option String) : Callback Script (Option Nat) := do
  let names ← Callback.ask .groupNames
  return match name with
    | none => some 0
    | some name => names.findIdx? (· == name)

def findIn (id : String) : List CheckRef → Callback Script (Option CheckRef)
  | [] => .done none
  | r :: rest => do
    if (← idOf r) == id then return some r else findIn id rest

/-- The first check registered with that id. -/
def find (id : String) : Callback Script (Option CheckRef) := do
  findIn id (← Callback.ask .registered)

/-- Text of the error that waits for the end of the script. -/
def noteAbort (failure : Failure) : Callback Script Unit := do
  let text ← failure.text
  Callback.ask (.note ("abort:" ++ text))

/-- A deed on a check either changes the error that waits for the end of the script, or ends the
script with an error at once. -/
def onCheck (r : CheckRef) (waiting : Option Failure) :
    Deed → Callback Script (Except Failure (Option Failure))
  | .judge verdict => do
    Callback.ask (.judge r verdict)
    return .ok waiting
  | .write level message => do
    Callback.ask (.write r level message)
    return .ok waiting
  | .abort reason swallow contexts => do
    let message ← Callback.ask (.abort r reason)
    let failure : Failure := ⟨.abortRequest message, []⟩
    noteAbort failure
    return .ok (if swallow then waiting else some (failure.withContexts contexts))
  | .state => do
    let status ← Callback.ask (.status r)
    Callback.ask
      (.note ("state:" ++ (← idOf r) ++ "=" ++ status.state.name ++ ":" ++ status.reason))
    return .ok waiting
  | _ => .done (.ok waiting)

def perform (check : Option CheckRef) (waiting : Option Failure) (deed : Deed) :
    Callback Script (Except Failure (Option Failure)) := do
  match deed with
  | .note text =>
    Callback.ask (.note text)
    return .ok waiting
  | .cursor group =>
    let cursor ← match ← findGroup group with
      | some g => Callback.ask (.cursor g)
      | none => pure none
    let text := match cursor with
      | some n => toString n
      | none => "null"
    Callback.ask (.note ("cursor:" ++ text))
    return .ok waiting
  | .fail failure => return .error failure
  | .panic payload => .panic (raise payload)
  | .sleep nanos =>
    Callback.ask (.sleep nanos)
    return .ok waiting
  | .stop =>
    Callback.ask (.stop 0)
    return .ok waiting
  | .labelAborted group filter reason =>
    match ← findGroup group with
    | some g => Group.labelAborted g filter reason
    | none => pure ()
    return .ok waiting
  | .register group check =>
    match ← findGroup group with
    | some g => Callback.ask (.register g check)
    | none => pure ()
    return .ok waiting
  | .interrupt =>
    let heard ← Callback.ask .interrupt
    Callback.ask (.note ("interrupt:" ++ toString heard))
    return .ok waiting
  | .block =>
    Callback.ask .pause
    return .ok waiting
  | deed =>
    match check with
    | some r => onCheck r waiting deed
    | none => return .ok waiting

/-- Whether a step concerns the check in hand and the call that is going on. -/
def concerns (check : Option CheckRef) (calls : Nat) :
    Option (List String) → Option Nat → Callback Script Bool
  | none, call => .done (call.all (· == calls))
  | some ids, call => do
    match check with
    | none => return false
    | some r => return ids.contains (← idOf r) && call.all (· == calls)

def runFrom (check : Option CheckRef) (calls : Nat) (waiting : Option Failure) :
    List Step → Callback Script (Except Failure Unit)
  | [] => .done (match waiting with
    | none => .ok ()
    | some failure => .error failure)
  | .mk only call target deed :: rest => do
    if ← concerns check calls only call then
      let aim ← match target with
        | some id => find id
        | none => pure check
      match ← perform aim waiting deed with
      | .error failure => return .error failure
      | .ok waiting => runFrom check calls waiting rest
    else runFrom check calls waiting rest

def act (script : Script) (call : Call) : Callback Script (Except Failure Unit) :=
  match script with
  | .steps since list => do
    let calls := callsBefore since call (← Callback.ask .history)
    runFrom (subject call) calls none list
  | .answers _ => .done (.ok ())

/-- Answers are used call by call; the last one is used from then on. -/
def excuse (script : Script) (call : Call) : Callback Script (Option String) :=
  match script with
  | .steps .. => .done none
  | .answers list => do
    let calls := callsBefore 0 call (← Callback.ask .history)
    match list[min calls (list.length - 1)]? with
    | some (.reason text) => return some text
    | some (.panic payload) => .panic (raise payload)
    | _ => return none

def behaviour : Behaviour Script := ⟨act, excuse⟩

/-- A line for a happening, in which checks are shown as `id` says. -/
def line (id : CheckRef → String) : Happening → String
  | .note text => text
  | .called (.beforeAll _ rs) => "before_all:" ++ ",".intercalate (rs.map id)
  | .called (.afterAll _ rs) => "after_all:" ++ ",".intercalate (rs.map id)
  | .called (.beforeEach r) => "before_each:" ++ id r
  | .called (.afterEach r) => "after_each:" ++ id r
  | .called (.skip r n) => "skip:" ++ id r ++ "#" ++ toString n
  | .called (.before r) => "before:" ++ id r
  | .called (.body r) => "check:" ++ id r
  | .called (.after r) => "after:" ++ id r

end Script

end Conformance
