import Conformance.Group.Running
import Conformance.Proofs.Program.Effect

/-!
Every part of a group run is an attempt, which calls callbacks and judges nothing on its own
account, and the policy that reacts to the trouble that the attempt ran into. The effect of an
attempt follows from the effects of the callbacks that it calls.
-/
namespace Conformance.Group

variable {κ α : Type}

/-- What goes wrong in an attempt. -/
inductive Trouble where
  | failure (kind message : String)
  | abort (message : String)

def hookTrouble (name : String) : Except Panic (Except Failure Unit) → Worker κ (Option Trouble)
  | .ok (.ok ()) => .done none
  | .ok (.error failure) =>
    failure.text.bind fun text =>
      .done (some (.failure (name ++ " function unexpected error") text))
  | .error panic => .done (some (.failure (name ++ " function panicked") ("\n: " ++ panic.text)))

def tryHook (b : Behaviour κ) (name : String) (hook : Option κ) (call : Call) :
    Worker κ (Option Trouble) :=
  match hook with
  | none => .done none
  | some callback => (Worker.call call (b.act callback call)).bind (hookTrouble name)

def checkTrouble (m : Member κ) : Except Panic (Except RunFault Unit) → Worker κ (Option Trouble)
  | .ok (.ok ()) => .done none
  | .ok (.error (.aborted message)) => .done (some (.abort message))
  | .ok (.error fault) =>
    fault.text.bind fun text =>
      (Worker.ask (.write m.1 .error
        ("Unexpected error while running check " ++ m.2.id ++ " function: " ++ text))).bind fun _ =>
      .done (some (.failure ("check " ++ m.2.id ++ " function unexpected error") text))
  | .error panic =>
    (Worker.ask (.write m.1 .error
      ("Panic while running check " ++ m.2.id ++ " function:\n" ++ panic.text))).bind fun _ =>
    .done (some (.failure ("check " ++ m.2.id ++ " function panic") panic.text))

def grantAbort (s : Setting κ) (m : Member κ) : Worker κ Unit :=
  match s.handle with
  | some handle => Worker.act (.grant m.1 handle)
  | none => .done ()

def tryCheck (s : Setting κ) (m : Member κ) : Worker κ (Option Trouble) :=
  (Running.skipDecision s.behaviour m.1 m.2).bind fun
    | some reason => (skipCheck m reason).bind fun _ => .done none
    | none =>
      (grantAbort s m).bind fun _ =>
      (Running.run s.behaviour m.1 m.2).guarded.bind (checkTrouble m)

/-- The policy: an abort is passed on, any other trouble fails the check in hand. -/
def react (s : Setting κ) (current : CheckRef) (remaining : List (Member κ)) :
    Option Trouble → Worker κ (Option GroupError)
  | none => .done none
  | some (.abort message) => .done (some (.aborted message))
  | some (.failure kind message) =>
    (fail s kind message current remaining).bind fun error => .done (some error)

theorem runHook_eq (s : Setting κ) (name : String) (hook : Option κ) (call : Call)
    (current : CheckRef) (remaining : List (Member κ)) :
    runHook s name hook call current remaining =
      (tryHook s.behaviour name hook call).bind (react s current remaining) := by
  cases hook with
  | none => rfl
  | some callback =>
    simp only [runHook, tryHook, Prog.bind_eq, Prog.bind_assoc]
    congr 1
    funext result
    rcases result with panic | failure | _
    · rfl
    · rw [hookTrouble, Prog.bind_assoc]
      rfl
    · rfl

theorem runCheck_eq (s : Setting κ) (m : Member κ) (remaining : List (Member κ)) :
    runCheck s m remaining =
      ((Running.run s.behaviour m.1 m.2).guarded.bind (checkTrouble m)).bind
        (react s m.1 remaining) := by
  simp only [runCheck, Prog.bind_eq, Prog.bind_assoc]
  congr 1
  funext result
  match result with
  | .ok (.ok ()) => rfl
  | .ok (.error fault) =>
    cases fault with
    | inPhase id phase cause =>
      simp only [checkTrouble, RunFault.text, Prog.bind_assoc]
      rfl
    | _ => rfl
  | .error panic => rfl

theorem runUnlessExcused_eq (s : Setting κ) (m : Member κ) (remaining : List (Member κ)) :
    runUnlessExcused s m remaining = (tryCheck s m).bind (react s m.1 remaining) := by
  simp only [runUnlessExcused, tryCheck, Prog.bind_eq, Prog.bind_assoc, runCheck_eq]
  congr 1
  funext decision
  cases decision with
  | some reason =>
    simp only [Prog.bind_assoc]
    rfl
  | none =>
    simp only [grantAbort, Prog.bind_assoc]
    cases s.handle <;> rfl

theorem iteration_eq (s : Setting κ) (m : Member κ) (remaining : List (Member κ)) :
    iteration s m remaining =
      (runHook s "beforeEach" s.hooks.beforeEach (.beforeEach m.1) m.1 remaining).bind fun before =>
        (if before.isNone then runUnlessExcused s m remaining else .done none).bind fun body =>
          (runHook s "afterEach" s.hooks.afterEach (.afterEach m.1) m.1 remaining).bind fun after =>
            .done (before.toList ++ body.toList ++ after.toList) := by
  simp only [iteration, Prog.bind_eq]
  congr 1
  funext before
  cases before <;> rfl

section Effects

/-- An operation that brings no verdict, takes in no check and sets no stop token. -/
def IsNeutral : Action κ → Prop
  | .request (.checks _) | .request (.status _) | .request (.write ..) => True
  | .request _ | .send .. | .newToken _ | .setToken _ => False
  | _ => True

/-- An effect of the neutral operations and of certain calls. Either all of these calls have it, or
only those that end well need to; predicates always do. -/
structure Bears (K : Engine κ → Engine κ → Prop) (b : Behaviour κ) (all : Prop)
    (calls : Call → Prop) : Prop extends Prog.IsEffect K where
  neutral {op : Action κ} (hop : IsNeutral op) (e : Engine κ) : K e (op.apply e).2
  act (callback : κ) {call : Call} (hcall : calls call) (e : Engine κ)
    (hwell : all ∨ ((b.act callback call).exec Request.apply e).1 = .ok (.ok ())) :
    K e ((b.act callback call).exec Request.apply e).2
  excuse (callback : κ) {call : Call} (hcall : calls call) (e : Engine κ) :
    K e ((b.excuse callback call).exec Request.apply e).2

theorem exec_ofCallback (p : Callback κ α) (e : Engine κ) :
    (Worker.ofCallback p).exec Action.apply e = p.exec Request.apply e := by
  refine Prog.exec_lift ?_ p e
  intro op e
  rfl

theorem hookTrouble_none {name : String} {result : Except Panic (Except Failure Unit)}
    {e : Engine κ} (h : ((hookTrouble name result).exec Action.apply e).1 = .ok none) :
    result = .ok (.ok ()) := by
  match result with
  | .ok (.ok ()) => rfl
  | .ok (.error failure) =>
    simp only [hookTrouble, Failure.text] at h
    cases htext : failure.text? <;> rw [htext] at h <;> cases h
  | .error panic => cases h

variable {b : Behaviour κ} {K : Engine κ → Engine κ → Prop} {all : Prop} {calls : Call → Prop}
  (hK : Bears K b all calls)

include hK

theorem Bears.has_act (op : Action κ) (hop : IsNeutral op) {when : Except Panic op.Resp → Prop} :
    (Worker.act op).Has Action.apply K when :=
  Prog.has_request (hK.neutral hop)

theorem Bears.has_enter {p : Worker κ α} {call : Call} {when : Except Panic α → Prop}
    (hp : p.Has Action.apply K when) :
    ((Worker.act (.enter call)).bind fun _ => p).Has Action.apply K when :=
  (hK.has_act (.enter call) trivial).bind_always hK.toIsEffect fun _ => hp

theorem Bears.has_callback (callback : κ) {call : Call} (hcall : calls call) :
    (Worker.ofCallback (b.act callback call)).Has Action.apply K
      (fun x => all ∨ x = .ok (.ok ())) := by
  intro e hwell
  rw [exec_ofCallback] at hwell ⊢
  exact hK.act callback hcall e hwell

theorem Bears.has_tryHook (name : String) (hook : Option κ) {call : Call} (hcall : calls call) :
    (tryHook b name hook call).Has Action.apply K (fun x => all ∨ x = .ok none) := by
  cases hook with
  | none => exact Prog.has_done hK.toIsEffect _ none
  | some callback =>
    have hcalled := (hK.has_callback callback hcall).guarded
    have htrouble : ∀ result, (hookTrouble name result).Has Action.apply K
        (fun x => all ∨ x = .ok none) := by
      intro result
      match result with
      | .ok (.ok ()) => exact Prog.has_done hK.toIsEffect _ none
      | .ok (.error failure) =>
        simp only [hookTrouble, Failure.text]
        cases failure.text? with
        | ok text => exact Prog.has_done hK.toIsEffect _ _
        | error panic => exact Prog.has_panic hK.toIsEffect _ panic
      | .error panic => exact Prog.has_done hK.toIsEffect _ _
    refine (hK.has_enter hcalled).bind hK.toIsEffect htrouble ?_ ?_
    · rintro value e (hall | hnone) y hy
      · exact .inl hall
      · refine .inr ?_
        cases hy
        exact hookTrouble_none hnone
    · rintro q - y hy
      cases hy

theorem Bears.has_excusesFrom {r : CheckRef} (hcalls : ∀ index, calls (.skip r index))
    {callbacks : List κ} : ∀ {index : Nat} {given : List String},
      (Running.excusesFrom b r index given callbacks).Has Action.apply K Prog.Always := by
  induction callbacks with
  | nil => exact fun {_ _} => Prog.has_done hK.toIsEffect _ _
  | cons callback rest ih =>
    intro index given
    have hasked : (Worker.ofCallback (b.excuse callback (.skip r index))).Has Action.apply K
        Prog.Always := by
      intro e _
      rw [exec_ofCallback]
      exact hK.excuse callback (hcalls index) e
    have hcalled : (Worker.call (.skip r index) (b.excuse callback (.skip r index))).Has
        Action.apply K Prog.Always :=
      (hK.has_enter hasked.guarded).mono fun _ _ _ _ => trivial
    simp only [Running.excusesFrom, Prog.bind_eq, Prog.pure_eq]
    refine hcalled.bind_always hK.toIsEffect ?_
    intro answer
    match answer with
    | .ok (some reason) => exact ih
    | .ok none => exact ih
    | .error panic =>
      refine (hK.has_act (.request (.write r .error _)) trivial).bind_always
        hK.toIsEffect ?_
      exact fun _ => Prog.has_done hK.toIsEffect _ _

theorem Bears.has_skipDecision {r : CheckRef} (hcalls : ∀ index, calls (.skip r index))
    (c : Check κ) : (Running.skipDecision b r c).Has Action.apply K Prog.Always := by
  simp only [Running.skipDecision, Prog.bind_eq, Prog.pure_eq]
  refine (hK.has_excusesFrom hcalls).bind_always hK.toIsEffect ?_
  intro answer
  cases answer <;> exact Prog.has_done hK.toIsEffect _ _

theorem Bears.has_runPhases {r : CheckRef} {id : String}
    (hcalls : ∀ phase : Phase, calls (phase.call r)) {steps : List (Phase × κ)} :
    (Running.runPhases b r id steps).Has Action.apply K (fun x => all ∨ x = .ok (.ok ())) := by
  induction steps with
  | nil => exact Prog.has_done hK.toIsEffect _ _
  | cons step rest ih =>
    obtain ⟨phase, callback⟩ := step
    have hphase : (Running.runPhase b r id phase callback).Has Action.apply K
        (fun x => all ∨ x = .ok (.ok ())) := by
      refine hK.has_enter ((hK.has_callback callback (hcalls phase)).bind hK.toIsEffect ?_ ?_ ?_)
      · intro result
        cases result <;> exact Prog.has_done hK.toIsEffect _ _
      · rintro (failure | _) e (hall | hwell)
        · exact .inl hall
        · cases hwell
        · exact .inl hall
        · exact .inr rfl
      · rintro q (hall | hwell)
        · exact .inl hall
        · cases hwell
    simp only [Running.runPhases, Prog.bind_eq, Prog.pure_eq]
    refine hphase.bind hK.toIsEffect ?_ ?_ ?_
    · intro result
      cases result with
      | ok => exact ih
      | error fault => exact Prog.has_done hK.toIsEffect _ _
    · rintro (fault | _) e (hall | hwell)
      · exact .inl hall
      · cases hwell
      · exact .inl hall
      · exact .inr rfl
    · rintro q (hall | hwell)
      · exact .inl hall
      · cases hwell

theorem Bears.has_finish (r : CheckRef) (c : Check κ) (began : Nat) :
    (Running.finish r c began).Has Action.apply K Prog.Always := by
  refine (hK.has_act (.finish r) trivial).bind_always hK.toIsEffect fun _ => ?_
  cases c.timeout with
  | none => exact Prog.has_done hK.toIsEffect _ _
  | some limit =>
    refine (hK.has_act .now trivial).bind_always hK.toIsEffect fun now => ?_
    simp only
    split
    · exact hK.has_act (.request (.write r .warn _)) trivial
    · exact Prog.has_done hK.toIsEffect _ _

theorem Bears.has_checkRun {m : Member κ} (hcalls : ∀ phase : Phase, calls (phase.call m.1)) :
    (Running.run b m.1 m.2).Has Action.apply K (fun x => all ∨ x = .ok (.ok ())) := by
  unfold Running.run
  cases m.2.fault with
  | some fault => exact Prog.has_done hK.toIsEffect _ _
  | none =>
    cases m.2.body with
    | none => exact Prog.has_done hK.toIsEffect _ _
    | some body =>
      simp only [Prog.bind_eq, Prog.pure_eq]
      refine (hK.has_act (.begin m.1) trivial).bind_always hK.toIsEffect fun began => ?_
      refine (hK.has_runPhases hcalls).guarded.bind hK.toIsEffect ?_ ?_ ?_
      · intro result
        refine (hK.has_finish m.1 m.2 began).bind_always hK.toIsEffect fun _ => ?_
        cases result with
        | ok result => exact Prog.has_done hK.toIsEffect _ _
        | error panic => exact Prog.has_panic hK.toIsEffect _ panic
      · rintro value e (hall | hwell) y hy
        · exact .inl hall
        · refine .inr ?_
          cases hy
          rw [Prog.exec_bind] at hwell
          -- Whatever the stamps come to, the result is that of the phases.
          split at hwell
          · cases value <;> exact hwell
          · cases hwell
      · rintro q - y hy
        cases hy

theorem Bears.has_checkTrouble (m : Member κ) (result : Except Panic (Except RunFault Unit)) :
    (checkTrouble m result).Has Action.apply K Prog.Always := by
  have hwritten {message : String} {trouble : Trouble} :
      ((Worker.ask (.write m.1 .error message)).bind fun _ =>
        (.done (some trouble) : Worker κ (Option Trouble))).Has Action.apply K Prog.Always :=
    (hK.has_act (.request (.write m.1 .error message)) trivial).bind_always hK.toIsEffect
      fun _ => Prog.has_done hK.toIsEffect _ _
  match result with
  | .ok (.ok ()) => exact Prog.has_done hK.toIsEffect _ _
  | .ok (.error fault) =>
    cases fault with
    | aborted message => exact Prog.has_done hK.toIsEffect _ _
    | inPhase id phase cause =>
      simp only [checkTrouble, RunFault.text, Failure.text]
      cases cause.text? with
      | ok text => exact hwritten
      | error panic => exact Prog.has_panic hK.toIsEffect _ panic
    | _ => exact hwritten
  | .error panic => exact hwritten

theorem Bears.has_skipCheck {m : Member κ}
    (hskip : ∀ reason e, K e (e.judge m.1 (.skipped reason))) (reason : String) :
    (skipCheck m reason).Has Action.apply K Prog.Always :=
  (hK.has_act (.request (.write m.1 .info _)) trivial).bind_always hK.toIsEffect
    fun _ => Prog.has_request (hskip reason)

end Effects

theorem checkTrouble_none {m : Member κ} {result : Except Panic (Except RunFault Unit)}
    {e : Engine κ} (h : ((checkTrouble m result).exec Action.apply e).1 = .ok none) :
    result = .ok (.ok ()) := by
  match result with
  | .ok (.ok ()) => rfl
  | .ok (.error fault) =>
    cases fault with
    | inPhase id phase cause =>
      simp only [checkTrouble, RunFault.text, Failure.text] at h
      cases htext : cause.text? <;> rw [htext] at h <;> cases h
    | _ => cases h
  | .error panic => cases h

/-- An attempt at a check calls its predicates and its phases. It may skip the check. -/
theorem Bears.has_tryCheck {s : Setting κ} {m : Member κ} {K : Engine κ → Engine κ → Prop}
    {all : Prop} {calls : Call → Prop} (hK : Bears K s.behaviour all calls)
    (hskips : ∀ index, calls (.skip m.1 index)) (hphases : ∀ phase : Phase, calls (phase.call m.1))
    (hskip : ∀ reason e, K e (e.judge m.1 (.skipped reason))) :
    (tryCheck s m).Has Action.apply K (fun x => all ∨ x = .ok none) := by
  refine (hK.has_skipDecision hskips m.2).bind_always hK.toIsEffect ?_
  intro decision
  cases decision with
  | some reason =>
    exact (hK.has_skipCheck hskip reason).bind_always hK.toIsEffect
      fun _ => Prog.has_done hK.toIsEffect _ _
  | none =>
    have hgrant : (grantAbort s m).Has Action.apply K Prog.Always := by
      unfold grantAbort
      cases s.handle with
      | some handle => exact hK.has_act (.grant m.1 handle) trivial
      | none => exact Prog.has_done hK.toIsEffect _ _
    refine hgrant.bind_always hK.toIsEffect fun _ => ?_
    refine (hK.has_checkRun hphases).guarded.bind hK.toIsEffect
      (fun result => (hK.has_checkTrouble m result).mono fun _ _ => trivial) ?_ ?_
    · rintro value e (hall | hnone) y hy
      · exact .inl hall
      · refine .inr ?_
        cases hy
        exact checkTrouble_none hnone
    · rintro q - y hy
      cases hy

end Conformance.Group
