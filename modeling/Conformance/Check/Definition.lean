import Conformance.Check.State
import Conformance.Text.Blank
import Conformance.Text.Quoted
import Conformance.Time.Span

/-!
Checks as they are defined: an id, labels, callbacks and options, put together step by step. The
first step that cannot be taken leaves its fault with the check, and no later step has an effect.
Callbacks are names `κ`; what they do is given elsewhere.
-/
namespace Conformance

inductive SkipMode where
  | any
  | all
  deriving DecidableEq, Repr

def SkipMode.title : SkipMode → String
  | any => "Any"
  | all => "All"

inductive BuildFault where
  | emptyId
  | emptyLabel (id : String)
  | zeroTimeout (id : String)
  deriving DecidableEq, Repr

namespace BuildFault

def message : BuildFault → String
  | emptyId => "check id must not be empty"
  | emptyLabel id => "check " ++ id ++ ": labels must not be empty strings"
  | zeroTimeout id => "check " ++ id ++ ": timeout must be greater than zero"

def description : BuildFault → String
  | emptyId => "EmptyId"
  | emptyLabel id => "EmptyLabel \x7b id: " ++ Text.quoted id ++ " \x7d"
  | zeroTimeout id => "ZeroTimeout \x7b id: " ++ Text.quoted id ++ " \x7d"

end BuildFault

structure Check (κ : Type) where
  id : String
  labels : List String
  before : Option κ
  body : Option κ
  after : Option κ
  skips : List κ
  skipMode : SkipMode
  /-- The time that the check should take at most, in nanoseconds. -/
  timeout : Option Nat
  fault : Option BuildFault

inductive BuildStep (κ : Type) where
  | before (callback : κ)
  | body (callback : κ)
  | after (callback : κ)
  | skip (callback : κ)
  | skipMode (mode : SkipMode)
  | timeout (nanos : Nat)

namespace Check

variable {κ : Type}

def new (id : String) (labels : List String) : Check κ where
  id := id
  labels := labels
  before := none
  body := none
  after := none
  skips := []
  skipMode := .any
  timeout := none
  fault :=
    if Text.isBlankText id then some .emptyId
    else if labels.any Text.isBlankText then some (.emptyLabel id)
    else none

instance : Inhabited (Check κ) := ⟨new "" []⟩

def step (c : Check κ) : BuildStep κ → Check κ
  | .before callback => { c with before := some callback }
  | .body callback => { c with body := some callback }
  | .after callback => { c with after := some callback }
  | .skip callback => { c with skips := c.skips ++ [callback] }
  | .skipMode mode => { c with skipMode := mode }
  | .timeout 0 => { c with fault := some (.zeroTimeout c.id) }
  | .timeout nanos => { c with timeout := some nanos }

def add (c : Check κ) (s : BuildStep κ) : Check κ := if c.fault.isSome then c else c.step s

def build (id : String) (labels : List String) (steps : List (BuildStep κ)) : Check κ :=
  steps.foldl add (new id labels)

def describe (c : Check κ) (state : CheckState) : String :=
  let option (text : Option String) := match text with
    | none => "None"
    | some text => "Some(" ++ text ++ ")"
  "Check \x7b id: " ++ Text.quoted c.id ++ ", labels: " ++ Text.quotedList c.labels ++ ", result: "
    ++ state.title ++ ", skip_mode: " ++ c.skipMode.title ++ ", timeout: "
    ++ option (c.timeout.map Time.spanText) ++ ", construction_error: "
    ++ option (c.fault.map BuildFault.description) ++ " \x7d"

end Check

end Conformance
