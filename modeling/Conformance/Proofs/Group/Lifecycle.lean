import Conformance.Group.Running
import Conformance.Proofs.Program.Trail

/-!
The order in which a group run calls its callbacks, as a law on turns. A turn is a call of a
callback with what came of it, or a look at the stop token. The law is stated part by part, from a
hook to a whole run, and each part says how it ends: well, badly, or cut short because a callback
returned an error whose text cannot be had.
-/
namespace Conformance.Group

variable {κ : Type}

inductive Turn (κ : Type) where
  | act (callback : κ) (call : Call) (result : Except Panic (Except Failure Unit))
  | excuse (callback : κ) (call : Call) (answer : Except Panic (Option String))
  | look (stopped : Bool)

def Turn.call? : Turn κ → Option Call
  | act _ call _ => some call
  | excuse _ call _ => some call
  | look _ => none

/-- How a part of a group run ends. A part is cut short where the text of an error panics. -/
inductive Ending where
  | well
  | badly
  | cut (panic : Panic)

namespace Ending

/-- An error is one that goes on with its text, or cuts the run short. -/
def ofFailure (failure : Failure) : Ending :=
  match failure.text? with
  | .ok _ => badly
  | .error panic => cut panic

/-- What an error is meant to come to: nothing is cut short. -/
def meant (_ : Failure) : Ending := badly

def ofHook (effect : Failure → Ending) : Except Panic (Except Failure Unit) → Ending
  | .ok (.ok ()) => well
  | .ok (.error failure) => effect failure
  | .error _ => badly

/-- The text of a request to abort is not asked for. -/
def ofPhase (effect : Failure → Ending) : Except Panic (Except Failure Unit) → Ending
  | .ok (.ok ()) => well
  | .ok (.error failure) => if failure.abortMessage?.isSome then badly else effect failure
  | .error _ => badly

/-- The ending that the result of a part shows, where `bad` tells the values of a bad end. -/
def shown {α : Type} (bad : α → Bool) : Except Panic α → Ending
  | .ok value => if bad value then badly else well
  | .error panic => cut panic

/-- The ending of two parts, the second of which is done whether or not the first went well. -/
def followedBy : Ending → Ending → Ending
  | well, last => last
  | badly, cut panic => cut panic
  | badly, _ => badly
  | cut panic, _ => cut panic

end Ending

section Law

variable (effect : Failure → Ending)

/-- A hook is called once, if there is one. -/
inductive HookTurns (hook : Option κ) (call : Call) : List (Turn κ) → Ending → Prop
  | absent (h : hook = none) : HookTurns hook call [] .well
  | called {callback : κ} (h : hook = some callback)
      (result : Except Panic (Except Failure Unit)) :
      HookTurns hook call [.act callback call result] (.ofHook effect result)

/-- Predicates are asked in order, up to one that panics, and give reasons. -/
inductive ExcuseTurns (r : CheckRef) :
    Nat → List κ → List (Turn κ) → List String → Bool → Prop
  | finished (index : Nat) : ExcuseTurns r index [] [] [] false
  | panicked (index : Nat) (callback : κ) (rest : List κ) (panic : Panic) :
      ExcuseTurns r index (callback :: rest) [.excuse callback (.skip r index) (.error panic)]
        [] true
  | answered {index : Nat} {rest : List κ} {turns : List (Turn κ)} {reasons : List String}
      {panicked : Bool} (callback : κ) (answer : Option String)
      (h : ExcuseTurns r (index + 1) rest turns reasons panicked) :
      ExcuseTurns r index (callback :: rest)
        (.excuse callback (.skip r index) (.ok answer) :: turns)
        (answer.toList ++ reasons) panicked

/-- A check is skipped for a panic, or for a reason; in mode `all` every predicate has to give
one. -/
def Skips (c : Check κ) (reasons : List String) (panicked : Bool) : Prop :=
  panicked = true ∨
    (reasons ≠ [] ∧ (c.skipMode = .all → reasons.length = c.skips.length))

/-- Phases are called in order, up to the first that does not go well. -/
inductive PhaseTurns (r : CheckRef) : List (Phase × κ) → List (Turn κ) → Ending → Prop
  | finished : PhaseTurns r [] [] .well
  | failed (phase : Phase) (callback : κ) (rest : List (Phase × κ))
      (result : Except Panic (Except Failure Unit)) (h : Ending.ofPhase effect result ≠ .well) :
      PhaseTurns r ((phase, callback) :: rest) [.act callback (phase.call r) result]
        (.ofPhase effect result)
  | next {rest : List (Phase × κ)} {turns : List (Turn κ)} {ending : Ending} (phase : Phase)
      (callback : κ) (h : PhaseTurns r rest turns ending) :
      PhaseTurns r ((phase, callback) :: rest)
        (.act callback (phase.call r) (.ok (.ok ())) :: turns) ending

/-- A check that was built with a fault, or without a body, fails without a call. -/
inductive BodyTurns (m : Member κ) : List (Turn κ) → Ending → Prop
  | unfit (h : m.2.fault.isSome ∨ m.2.body = none) : BodyTurns m [] .badly
  | ran {body : κ} {turns : List (Turn κ)} {ending : Ending} (hfault : m.2.fault = none)
      (hbody : m.2.body = some body)
      (h : PhaseTurns effect m.1
        (m.2.before.toList.map (Phase.before, ·) ++ (Phase.body, body) ::
          m.2.after.toList.map (Phase.after, ·)) turns ending) :
      BodyTurns m turns ending

/-- What stands before the hook after the check: the hook before it, then only if that went well
the predicates, then only if they do not skip the check its phases. -/
inductive CheckTurns (hooks : Hooks κ) (m : Member κ) : List (Turn κ) → Ending → Prop
  | unready {turns : List (Turn κ)} {ending : Ending}
      (h : HookTurns effect hooks.beforeEach (.beforeEach m.1) turns ending)
      (hbad : ending ≠ .well) : CheckTurns hooks m turns ending
  | excused {before asked : List (Turn κ)} {reasons : List String} {panicked : Bool}
      (h : HookTurns effect hooks.beforeEach (.beforeEach m.1) before .well)
      (hasked : ExcuseTurns m.1 0 m.2.skips asked reasons panicked)
      (hskips : Skips m.2 reasons panicked) : CheckTurns hooks m (before ++ asked) .well
  | ran {before asked body : List (Turn κ)} {reasons : List String} {panicked : Bool}
      {ending : Ending} (h : HookTurns effect hooks.beforeEach (.beforeEach m.1) before .well)
      (hasked : ExcuseTurns m.1 0 m.2.skips asked reasons panicked)
      (hskips : ¬Skips m.2 reasons panicked) (hbody : BodyTurns effect m body ending) :
      CheckTurns hooks m (before ++ (asked ++ body)) ending

/-- The hook after a check is always called, unless the run was cut short before. -/
inductive IterationTurns (hooks : Hooks κ) (m : Member κ) : List (Turn κ) → Ending → Prop
  | closed {turns after : List (Turn κ)} {ending last : Ending}
      (h : CheckTurns effect hooks m turns ending) (hcut : ∀ panic, ending ≠ .cut panic)
      (hafter : HookTurns effect hooks.afterEach (.afterEach m.1) after last) :
      IterationTurns hooks m (turns ++ after) (ending.followedBy last)
  | cut {turns : List (Turn κ)} {panic : Panic} (h : CheckTurns effect hooks m turns (.cut panic)) :
      IterationTurns hooks m turns (.cut panic)

/-- Iterations follow one another without a gap, up to the end, a stop that is seen, or the first
one that does not go well. -/
inductive LoopTurns (hooks : Hooks κ) : List (Member κ) → List (Turn κ) → Ending → Prop
  | finished : LoopTurns hooks [] [] .well
  | stopped (m : Member κ) (rest : List (Member κ)) :
      LoopTurns hooks (m :: rest) [.look true] .well
  | failed {m : Member κ} {turns : List (Turn κ)} {ending : Ending} (rest : List (Member κ))
      (h : IterationTurns effect hooks m turns ending) (hbad : ending ≠ .well) :
      LoopTurns hooks (m :: rest) (.look false :: turns) ending
  | next {m : Member κ} {rest : List (Member κ)} {turns later : List (Turn κ)} {ending : Ending}
      (h : IterationTurns effect hooks m turns .well) (hlater : LoopTurns hooks rest later ending) :
      LoopTurns hooks (m :: rest) (.look false :: (turns ++ later)) ending

/-- What stands before the hook after all checks. -/
inductive InnerTurns (g : Nat) (hooks : Hooks κ) (selected : List (Member κ)) :
    List (Turn κ) → Ending → Prop
  | unready {turns : List (Turn κ)} {ending : Ending}
      (h : HookTurns effect hooks.beforeAll (.beforeAll g (selected.map Prod.fst)) turns ending)
      (hbad : ending ≠ .well) : InnerTurns g hooks selected turns ending
  | looped {before turns : List (Turn κ)} {ending : Ending}
      (h : HookTurns effect hooks.beforeAll (.beforeAll g (selected.map Prod.fst)) before .well)
      (hloop : LoopTurns effect hooks selected turns ending) :
      InnerTurns g hooks selected (before ++ turns) ending

/-- The law of a whole run. Nothing is called when no check is selected; else the hook after all
checks comes last, unless the run was cut short before. -/
inductive RunTurns (g : Nat) (hooks : Hooks κ) (selected : List (Member κ)) :
    List (Turn κ) → Ending → Prop
  | idle (h : selected = []) : RunTurns g hooks selected [] .well
  | closed {turns after : List (Turn κ)} {ending last : Ending} (hne : selected ≠ [])
      (h : InnerTurns effect g hooks selected turns ending) (hcut : ∀ panic, ending ≠ .cut panic)
      (hafter : HookTurns effect hooks.afterAll (.afterAll g (selected.map Prod.fst)) after last) :
      RunTurns g hooks selected (turns ++ after) (ending.followedBy last)
  | cut {turns : List (Turn κ)} {panic : Panic} (hne : selected ≠ [])
      (h : InnerTurns effect g hooks selected turns (.cut panic)) :
      RunTurns g hooks selected turns (.cut panic)

end Law

/-- An operation that neither enters a callback, nor looks at a stop token, nor concerns the run. -/
def IsAside : Action κ → Prop
  | .enter _ | .stopped _ | .send .. | .newToken _ | .setToken _ => False
  | _ => True

abbrev Trail (κ : Type) := List (Prog.Exchange (@Action.Resp κ))

/-- The turns that a trail tells of. What a callback asks for belongs to its turn. -/
inductive Tells (b : Behaviour κ) (token : Nat) : Trail κ → List (Turn κ) → Prop
  | nil : Tells b token [] []
  | aside {t : Trail κ} {turns : List (Turn κ)} (op : Action κ) (answer : op.Resp)
      (hop : IsAside op) (h : Tells b token t turns) : Tells b token (⟨op, answer⟩ :: t) turns
  | act {t u : Trail κ} {turns : List (Turn κ)} {callback : κ} {call : Call}
      {result : Except Panic (Except Failure Unit)}
      (hcall : (Worker.ofCallback (b.act callback call)).Goes t result)
      (h : Tells b token u turns) :
      Tells b token (⟨.enter call, ()⟩ :: (t ++ u)) (.act callback call result :: turns)
  | excuse {t u : Trail κ} {turns : List (Turn κ)} {callback : κ} {call : Call}
      {answer : Except Panic (Option String)}
      (hcall : (Worker.ofCallback (b.excuse callback call)).Goes t answer)
      (h : Tells b token u turns) :
      Tells b token (⟨.enter call, ()⟩ :: (t ++ u)) (.excuse callback call answer :: turns)
  | look {t : Trail κ} {turns : List (Turn κ)} {stopped : Bool} (h : Tells b token t turns) :
      Tells b token (⟨.stopped token, stopped⟩ :: t) (.look stopped :: turns)

end Conformance.Group
