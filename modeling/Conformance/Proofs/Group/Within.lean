import Conformance.Proofs.Group.Parts

/-!
What the parts of a group run may ask for on their way. An iteration enters callbacks for its own
check only, and neither an iteration nor the hooks around all checks move the cursor or look at the
stop token.
-/
namespace Conformance

variable {κ α : Type}

/-- The check for which an operation enters a callback. -/
def Action.check? : Action κ → Option CheckRef
  | .enter call => call.check?
  | _ => none

namespace Group

section Within

/-- An operation that has no part in the way through a group, and enters callbacks for one check
at most. -/
def IsWithin (r : Option CheckRef) : Action κ → Prop
  | .enter call => call.check? = none ∨ call.check? = r
  | .setCursor .. | .stopped _ | .send .. | .newToken _ | .setToken _ => False
  | _ => True

variable {r : Option CheckRef} {s : Setting κ} {m : Member κ}

theorem IsWithin.check {op : Action κ} (h : IsWithin r op) {r' : CheckRef}
    (hr : op.check? = some r') : r = some r' := by
  cases op with
  | enter call =>
    have hcall : call.check? = some r' := hr
    rcases h with hnone | hsome
    · rw [hnone] at hcall
      cases hcall
    · exact hsome.symm.trans hcall
  | _ => cases hr

theorem within_ofCallback (p : Callback κ α) : (Worker.ofCallback p).Only (IsWithin r) := by
  refine Prog.only_lift ?_ p
  intro op
  trivial

theorem within_ask (op : Request κ) : (Worker.ask op).Only (IsWithin r) := Prog.only_request trivial

theorem within_act (op : Action κ) (h : IsWithin r op) : (Worker.act op).Only (IsWithin r) :=
  Prog.only_request h

theorem within_call (call : Call) (h : call.check? = none ∨ call.check? = r) (p : Callback κ α) :
    (Worker.call call p).Only (IsWithin r) :=
  (within_act (.enter call) h).bind fun _ => (within_ofCallback p).guarded

theorem within_text (failure : Failure) : (failure.text : Worker κ String).Only (IsWithin r) := by
  unfold Failure.text
  cases failure.text? <;> trivial

theorem within_skipCheck (m : Member κ) (reason : String) :
    (skipCheck m reason).Only (IsWithin r) := (within_ask _).bind fun _ => within_ask _

theorem within_skipAll (reason : String) (ms : List (Member κ)) :
    (skipAll reason ms).Only (IsWithin r) := by
  induction ms with
  | nil => trivial
  | cons m ms ih => exact (within_skipCheck m reason).bind fun _ => ih

theorem within_select (filter : Label.Filter) (ms : List (Member κ)) :
    (select filter ms).Only (IsWithin r) := by
  induction ms with
  | nil => trivial
  | cons m ms ih =>
    rw [select]
    split
    · exact ih.bind fun _ => trivial
    · exact (within_skipCheck m notMatching).bind fun _ => ih

theorem within_react (current : CheckRef) (remaining : List (Member κ)) (trouble : Option Trouble) :
    (react s current remaining trouble).Only (IsWithin r) := by
  match trouble with
  | none => trivial
  | some (.abort message) => trivial
  | some (.failure kind message) =>
    refine Prog.Only.bind ?_ fun _ => trivial
    exact (within_ask _).bind fun _ => (within_skipAll _ remaining).bind fun _ => trivial

theorem within_runHook (name : String) (hook : Option κ) {call : Call}
    (h : call.check? = none ∨ call.check? = r) (current : CheckRef) (remaining : List (Member κ)) :
    (runHook s name hook call current remaining).Only (IsWithin r) := by
  rw [runHook_eq]
  refine Prog.Only.bind ?_ (within_react current remaining)
  cases hook with
  | none => trivial
  | some callback =>
    refine (within_call call h _).bind ?_
    intro result
    match result with
    | .ok (.ok ()) => trivial
    | .ok (.error failure) => exact (within_text failure).bind fun _ => trivial
    | .error panic => trivial

theorem within_excusesFrom (b : Behaviour κ) (r : CheckRef) (callbacks : List κ) :
    ∀ (index : Nat) (given : List String),
      (Running.excusesFrom b r index given callbacks).Only (IsWithin (some r)) := by
  induction callbacks with
  | nil => exact fun _ _ => trivial
  | cons callback rest ih =>
    intro index given
    refine (within_call (.skip r index) (.inr rfl) _).bind ?_
    intro answer
    match answer with
    | .ok (some reason) => exact ih _ _
    | .ok none => exact ih _ _
    | .error panic => exact (within_ask _).bind fun _ => trivial

theorem within_runPhases (b : Behaviour κ) (r : CheckRef) (id : String)
    (steps : List (Phase × κ)) : (Running.runPhases b r id steps).Only (IsWithin (some r)) := by
  induction steps with
  | nil => trivial
  | cons step rest ih =>
    obtain ⟨phase, callback⟩ := step
    have hcheck : (phase.call r).check? = some r := by cases phase <;> rfl
    have hphase : (Running.runPhase b r id phase callback).Only (IsWithin (some r)) := by
      refine (within_act (.enter (phase.call r)) (.inr hcheck)).bind fun _ => ?_
      refine (within_ofCallback _).bind ?_
      intro result
      cases result <;> trivial
    refine hphase.bind ?_
    intro result
    cases result with
    | ok => exact ih
    | error fault => trivial

theorem within_checkRun (b : Behaviour κ) (m : Member κ) :
    (Running.run b m.1 m.2).Only (IsWithin (some m.1)) := by
  unfold Running.run
  cases m.2.fault with
  | some fault => trivial
  | none =>
    cases m.2.body with
    | none => trivial
    | some body =>
      refine (within_act (.begin m.1) trivial).bind fun began => ?_
      refine (within_runPhases b m.1 m.2.id _).guarded.bind fun result => ?_
      refine Prog.Only.bind ?_ ?_
      · refine (within_act (.finish m.1) trivial).bind fun _ => ?_
        cases m.2.timeout with
        | none => trivial
        | some limit =>
          refine (within_act .now trivial).bind fun now => ?_
          simp only
          split
          · exact within_ask _
          · trivial
      · intro _
        cases result <;> trivial

theorem within_checkTrouble (m : Member κ) (result : Except Panic (Except RunFault Unit)) :
    (checkTrouble m result).Only (IsWithin r) := by
  have hwritten {message : String} {trouble : Trouble} :
      ((Worker.ask (.write m.1 .error message)).bind fun _ =>
        (.done (some trouble) : Worker κ (Option Trouble))).Only (IsWithin r) :=
    (within_ask _).bind fun _ => trivial
  match result with
  | .ok (.ok ()) => trivial
  | .ok (.error fault) =>
    cases fault with
    | aborted message => trivial
    | inPhase id phase cause =>
      refine Prog.Only.bind ?_ fun _ => hwritten
      exact (within_text cause).bind fun _ => trivial
    | _ => exact hwritten
  | .error panic => exact hwritten

theorem within_runUnlessExcused (s : Setting κ) (m : Member κ) (remaining : List (Member κ)) :
    (runUnlessExcused s m remaining).Only (IsWithin (some m.1)) := by
  rw [runUnlessExcused_eq]
  refine Prog.Only.bind ?_ (within_react m.1 remaining)
  refine Prog.Only.bind (p := Running.skipDecision s.behaviour m.1 m.2) ?_ ?_
  · refine (within_excusesFrom s.behaviour m.1 m.2.skips 0 []).bind ?_
    intro answer
    cases answer <;> trivial
  · intro decision
    cases decision with
    | some reason => exact (within_skipCheck m reason).bind fun _ => trivial
    | none =>
      refine Prog.Only.bind (p := grantAbort s m) ?_ fun _ => ?_
      · unfold grantAbort
        cases s.handle with
        | none => trivial
        | some handle => exact within_act (.grant m.1 handle) trivial
      · exact (within_checkRun s.behaviour m).guarded.bind (within_checkTrouble m)

/-- An iteration enters callbacks for its own check only, and leaves the cursor alone. -/
theorem within_iteration (s : Setting κ) (m : Member κ) (remaining : List (Member κ)) :
    (iteration s m remaining).Only (IsWithin (some m.1)) := by
  have hhook (name : String) (hook : Option κ) {call : Call} (hcall : call.check? = some m.1) :
      (runHook s name hook call m.1 remaining).Only (IsWithin (some m.1)) :=
    within_runHook name hook (.inr hcall) m.1 remaining
  refine (hhook "beforeEach" s.hooks.beforeEach rfl).bind fun before => ?_
  have hlast {f : Option GroupError → Worker κ (List GroupError)}
      (hf : ∀ after, (f after).Only (IsWithin (some m.1))) :
      ((runHook s "afterEach" s.hooks.afterEach (.afterEach m.1) m.1 remaining).bind f).Only
        (IsWithin (some m.1)) := (hhook "afterEach" s.hooks.afterEach rfl).bind hf
  simp only
  split
  · refine (within_runUnlessExcused s m remaining).bind fun body => ?_
    exact hlast fun _ => trivial
  · exact hlast fun _ => trivial

end Within

section Own

/-- What a group run does on its own account concerns its own cursor and its own stop token. -/
def IsOwn (g token : Nat) : Action κ → Prop
  | .setCursor g' _ => g' = g
  | .stopped token' => token' = token
  | .send .. | .newToken _ | .setToken _ => False
  | _ => True

theorem IsPart.own {g token : Nat} {op : Action κ} (h : IsPart g token op) : IsOwn g token op := by
  cases op with
  | setCursor g' cursor => exact h
  | stopped token' => exact h
  | send => exact h
  | newToken => exact h
  | setToken => exact h
  | _ => trivial

theorem own_run (b : Behaviour κ) (g : Nat) (filter : Label.Filter) (token : Nat)
    (handle : Option AbortHandle) : (run b g filter token handle).Only (IsOwn g token) := by
  refine Allows.only_run ⟨IsPart.own, fun callback call _ => ?_, fun callback call _ => ?_⟩ filter
    handle
  · exact Prog.only_lift (fun _ => trivial) _
  · exact Prog.only_lift (fun _ => trivial) _

end Own

end Group

end Conformance
