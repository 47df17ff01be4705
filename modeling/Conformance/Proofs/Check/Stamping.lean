import Conformance.Proofs.Check.TimeLimit
import Conformance.Proofs.Check.Verdicts

/-!
What the run of a check leaves behind. Its times are stamped at its beginning and after its last
callback, however that ended, and whatever the callbacks ask for meanwhile leaves them alone. The
run gives no verdicts of its own: the result is what the callbacks have made of it.
-/
namespace Conformance

variable {κ α : Type}

theorem Status.times_apply (s : Status) (verdict : Verdict) :
    (s.apply verdict).startedAt = s.startedAt ∧ (s.apply verdict).endedAt = s.endedAt := by
  obtain ⟨state, reason, details, startedAt, endedAt⟩ := s
  cases verdict with
  | findings compliant nonCompliant =>
    simp only [apply, takeFindings, settle]
    cases state <;> cases nonCompliant <;> cases compliant <;> simp
  | _ =>
    simp only [apply, settle]
    cases state <;> simp

/-- When the latest run of a check began and ended. -/
def Registered.times (c : Registered κ) : Option Time.Instant × Option Time.Instant :=
  (c.status.startedAt, c.status.endedAt)

namespace Engine

variable (e : Engine κ)

def times? (r : CheckRef) : Option (Option Time.Instant × Option Time.Instant) :=
  (e.check? r).map Registered.times

theorem times?_modifyGroup (g : Nat) {f : Group κ → Group κ}
    (hf : ∀ group, (f group).checks = group.checks) (r : CheckRef) :
    (e.modifyGroup g f).times? r = e.times? r := by
  rw [times?, e.check?_modifyGroup g hf, times?]

theorem times?_log (r : CheckRef) (level : LogLevel) (message : String) (r' : CheckRef) :
    (e.log r level message).times? r' = e.times? r' := by
  refine e.map_check?_modifyCheck r ?_ r'
  intro c
  rfl

theorem times?_judge (r : CheckRef) (verdict : Verdict) (r' : CheckRef) :
    (e.judge r verdict).times? r' = e.times? r' := by
  have hjudged : (e.modifyCheck r fun c =>
      { c with status := c.status.apply verdict }).times? r' = e.times? r' := by
    refine e.map_check?_modifyCheck r (fun c => ?_) r'
    obtain ⟨hstarted, hended⟩ := c.status.times_apply verdict
    exact Prod.ext hstarted hended
  unfold judge
  cases e.check? r with
  | none => rfl
  | some c =>
    simp only
    split
    · exact hjudged
    · exact (times?_log _ r _ _ r').trans hjudged

theorem times?_send (run : Nat) (signal : Signal) (r : CheckRef) :
    (e.send run signal).times? r = e.times? r := by
  unfold send
  split <;> rfl

end Engine

namespace Action

/-- The operations that stamp times. -/
def Stamps : Action κ → Prop
  | .begin _ | .finish _ => True
  | _ => False

/-- Other operations leave the times of a check that is there as they are. -/
theorem times?_apply_of_some {op : Action κ} (hop : ¬op.Stamps) {e : Engine κ} {r : CheckRef}
    {v : Option Time.Instant × Option Time.Instant} (h : e.times? r = some v) :
    (op.apply e).2.times? r = some v := by
  cases op with
  | request op =>
    cases op with
    | write r' level message => rwa [apply, Request.apply, e.times?_log]
    | judge r' verdict => rwa [apply, Request.apply, e.times?_judge]
    | abort r' reason =>
      simp only [apply, Request.apply]
      split
      · exact h
      · split
        · rwa [e.times?_send]
        · rwa [e.times?_log]
    | stop g =>
      simp only [apply, Request.apply]
      split <;> exact h
    | register g check =>
      obtain ⟨c, hc, -⟩ := Option.map_eq_some_iff.mp h
      rcases e.check?_register g check r with hsame | ⟨hnone, -⟩
      · rwa [Engine.times?, apply, Request.apply, hsame]
      · rw [hc] at hnone
        cases hnone
    | interrupt => rwa [apply, Request.apply, e.times?_send]
    | _ => exact h
  | setCursor g cursor =>
    refine (e.times?_modifyGroup g ?_ r).trans h
    intro group
    rfl
  | newToken g =>
    refine (e.times?_modifyGroup g ?_ r).trans h
    intro group
    rfl
  | grant r' handle =>
    refine (e.map_check?_modifyCheck r' ?_ r).trans h
    intro c
    rfl
  | begin r' => exact absurd trivial hop
  | finish r' => exact absurd trivial hop
  | send run signal => rwa [apply, e.times?_send]
  | _ => exact h

theorem times?_begin {e : Engine κ} {r : CheckRef}
    {v : Option Time.Instant × Option Time.Instant} (h : e.times? r = some v) :
    ((Action.begin r).apply e).2.times? r = some (some e.now, v.2) := by
  obtain ⟨c, hc, rfl⟩ := Option.map_eq_some_iff.mp h
  have hstamped := e.check?_modifyCheck r
    (fun c => { c with status := { c.status with startedAt := some e.now } }) r
  rw [if_pos rfl, hc] at hstamped
  exact congrArg (Option.map Registered.times) hstamped

theorem times?_finish {e : Engine κ} {r : CheckRef}
    {v : Option Time.Instant × Option Time.Instant} (h : e.times? r = some v) :
    ((Action.finish r).apply e).2.times? r = some (v.1, some e.now) := by
  obtain ⟨c, hc, rfl⟩ := Option.map_eq_some_iff.mp h
  have hstamped := e.check?_modifyCheck r
    (fun c => { c with status := { c.status with endedAt := some e.now } }) r
  rw [if_pos rfl, hc] at hstamped
  exact congrArg (Option.map Registered.times) hstamped

end Action

section Alone

variable {e : Engine κ} {r : CheckRef}

/-- Operations that stamp nothing leave the times of a check as they are. -/
theorem times?_applyAll {ops : List (Action κ)}
    {v : Option Time.Instant × Option Time.Instant} (h : e.times? r = some v)
    (hops : ∀ op ∈ ops, ¬op.Stamps) : (Action.applyAll ops e).times? r = some v := by
  induction ops generalizing e with
  | nil => exact h
  | cons op ops ih =>
    obtain ⟨hop, hrest⟩ := List.forall_mem_cons.mp hops
    exact ih (Action.times?_apply_of_some hop h) hrest

/-- A program leaves what the operations of its trail make of the engine. -/
theorem exec_eq_applyAll (p : Worker κ α) (e : Engine κ) :
    (p.exec Action.apply e).2 = Action.applyAll ((p.trail Action.apply e).map Sigma.fst) e := by
  induction p generalizing e with
  | done value => rfl
  | panic q => rfl
  | ask op next ih => exact ih _ _

/-- The result of a check is what the verdicts on the way have made of it. -/
theorem result?_exec (p : Worker κ α) {s : Status} (h : e.result? r = some s) :
    (p.exec Action.apply e).2.result? r =
      some (((p.trail Action.apply e).filterMap (·.1.verdictOn? r)).foldl Status.apply s) := by
  induction p generalizing e s with
  | done value => exact h
  | panic q => exact h
  | ask op next ih =>
    have hop := op.result?_apply_of_some h
    rw [Prog.exec, Prog.trail, ih _ hop]
    cases hverdict : op.verdictOn? r with
    | none => simp [hverdict, Status.after]
    | some verdict => simp [hverdict, Status.after]

end Alone

namespace Running

variable {b : Behaviour κ} {r : CheckRef} {c : Check κ} {body : κ}

/-- The operations of calls, one after the other. -/
def opsOf (made : List (Called b.act)) : List (Action κ) :=
  (made.flatMap Called.trail).map Sigma.fst

theorem not_stamps_of_mem {made : List (Called b.act)} {op : Action κ} (h : op ∈ opsOf made) :
    ¬op.Stamps := by
  obtain ⟨s, hs, rfl⟩ := List.mem_map.mp h
  obtain ⟨a, -, hs⟩ := List.mem_flatMap.mp hs
  rcases List.mem_cons.mp hs with rfl | hasked
  · exact id
  · obtain ⟨op, hop⟩ := Called.eq_request_of_mem_asked hasked
    rw [hop]
    exact id

/-- All verdicts of a run are given by its callbacks. -/
theorem RunsThrough.verdicts {t : Group.Trail κ} {x : Except Panic (Except RunFault Unit)}
    {made : List (Called b.act)} (h : RunsThrough b r c body t x made) (r' : CheckRef) :
    t.filterMap (·.1.verdictOn? r') =
      (made.flatMap Called.asked).filterMap (·.1.verdictOn? r') := by
  obtain ⟨began, closing, hclosing, rfl⟩ := h.trail
  have hlast : closing.filterMap (·.1.verdictOn? r') = [] := by cases hclosing <;> rfl
  have hcalls : (made.flatMap Called.trail).filterMap (·.1.verdictOn? r') =
      (made.flatMap Called.asked).filterMap (·.1.verdictOn? r') := by
    rw [List.filterMap_flatMap, List.filterMap_flatMap]
    rfl
  rw [← hcalls, ← List.append_nil ((made.flatMap Called.trail).filterMap _), ← hlast,
    ← List.filterMap_append]
  simp [Action.verdictOn?]

/-- The times of a run: it begins on the engine that it is run on, and it ends after the last of
its calls, whatever that came to. -/
theorem RunsThrough.times? {e : Engine κ} {x : Except Panic (Except RunFault Unit)}
    {made : List (Called b.act)} {v : Option Time.Instant × Option Time.Instant}
    (h : RunsThrough b r c body ((run b r c).trail Action.apply e) x made)
    (hv : e.times? r = some v) :
    ((run b r c).exec Action.apply e).2.times? r = some (some e.now,
      some (Action.applyAll (opsOf made) ((Action.begin r).apply e).2).now) := by
  obtain ⟨began, closing, hclosing, htrail⟩ := h.trail
  have hlast : ∀ op ∈ closing.map Sigma.fst, ¬op.Stamps := by
    cases hclosing with
    | unlimited => exact List.forall_mem_nil _
    | inTime => exact List.forall_mem_singleton.mpr id
    | overrun => exact List.forall_mem_cons.mpr ⟨id, List.forall_mem_singleton.mpr id⟩
  have hcalled := times?_applyAll (Action.times?_begin hv) fun op (hop : op ∈ opsOf made) =>
    not_stamps_of_mem hop
  have hfinished := times?_applyAll (Action.times?_finish hcalled) hlast
  rw [exec_eq_applyAll, htrail]
  simpa only [Action.applyAll, opsOf, List.map_cons, List.map_append, List.foldl_cons,
    List.foldl_append] using hfinished

end Running

section Whole

open Running

/-- Running one check, whatever its callbacks do. A check that was built with a fault or without a
body calls nothing and changes nothing. Any other check calls the function before it, its body and
the function after it, as far as it has them, in this order up to one that does not go well, which
decides how the run ends: a request to abort ends it as such in whatever contexts it is wrapped. The
run gives no verdict itself, and stamps its times around the calls in any case. With another time
limit, which its callbacks do not read, it does the same but for the warning at the end. -/
theorem run_goes_through_phases (b : Behaviour κ) (r : CheckRef) (c : Check κ) :
    (∀ fault, c.fault = some fault → run b r c = .done (.error (.priorFault fault))) ∧
    (c.fault = none → c.body = none → run b r c = .done (.error (.missingBody c.id))) ∧
    ∀ body, c.fault = none → c.body = some body →
      (∀ t x, (run b r c).Goes t x → ∃ made : List (Called b.act),
        RunsThrough b r c body t x made ∧
        (∀ a ∈ made, ∀ message inner contexts, a.result =
            .ok (.error ((⟨.abortRequest message, inner⟩ : Failure).withContexts contexts)) →
          x = .ok (.error (.aborted message))) ∧
        (∀ r', t.filterMap (·.1.verdictOn? r') =
          (made.flatMap Called.asked).filterMap (·.1.verdictOn? r')) ∧
        ∀ (e : Engine κ) v, t = (run b r c).trail Action.apply e → e.times? r = some v →
          ((run b r c).exec Action.apply e).2.times? r = some (some e.now,
            some (Action.applyAll (opsOf made) ((Action.begin r).apply e).2).now)) ∧
      ∀ e : Engine κ,
        (∀ r' s, e.result? r' = some s → ((run b r c).exec Action.apply e).2.result? r' =
          some ((((run b r c).trail Action.apply e).filterMap (·.1.verdictOn? r')).foldl
            Status.apply s)) ∧
        ∀ limit, e.definition? r = some c →
          (∀ called ∈ c.due r body,
            Worker.Heedless r (Worker.ofCallback (b.act called.1 called.2))) →
          ∃ x ended e₁ e₂, (run b r c).exec Action.apply e = (x, e₁) ∧
            (run b r { c with timeout := limit }).exec Action.apply (e.retimed r limit) = (x, e₂) ∧
            ClosedBy r ended e₁ ∧ ClosedBy r (ended.retimed r limit) e₂ := by
  refine ⟨?_, ?_, ?_⟩
  · intro fault hfault
    rw [run, hfault]
    rfl
  · intro hfault hbody
    rw [run, hfault, hbody]
    rfl
  · intro body hfault hbody
    refine ⟨fun t x h => ?_, fun e => ⟨fun r' s h => result?_exec _ h, ?_⟩⟩
    · obtain ⟨made, hthrough⟩ := goes_run hfault hbody h
      refine ⟨made, hthrough, ?_, hthrough.verdicts, ?_⟩
      · intro a ha message inner contexts hresult
        exact (hthrough.endsAs.aborted message).mpr
          ⟨a, ha, _, hresult, Failure.asksAbort_withContexts message inner contexts⟩
      · rintro e v rfl hv
        exact hthrough.times? hv
    · intro limit h hheedless
      exact exec_run_retimed hfault hbody h hheedless limit

theorem run_goes_through_phases_aborted :
    let r : CheckRef := ⟨0, 0⟩
    let request : Failure := (⟨.abortRequest "gone", []⟩ : Failure).withContexts ["near", "far"]
    let b : Behaviour Bool := ⟨fun fails _ =>
      if fails then .done (.error request)
      else Prog.ask (.judge r (.failed "bad")) fun _ => .done (.ok ()), fun _ _ => .done none⟩
    let c : Check Bool := { Check.new "a" ["common"] with
      before := some false, body := some true, after := some false, timeout := some 1,
      fault := none }
    let e : Engine Bool := { (Engine.start 0 : Engine Bool) with
      groups := [{ Group.fresh "g" with checks := [.fresh c] }] }
    let ran := (run b r c).exec Action.apply e
    run b r { c with fault := some .emptyId } = .done (.error (.priorFault .emptyId)) ∧
    run b r { c with body := none } = .done (.error (.missingBody "a")) ∧
    (ran.1 = .ok (.error (.aborted "gone")) ∧ ∃ made : List (Called b.act),
      RunsThrough b r c true ((run b r c).trail Action.apply e) ran.1 made ∧
      ran.2.times? r = some (some (.ofNanos 0),
        some (Action.applyAll (opsOf made) ((Action.begin r).apply e).2).now)) ∧
    (∃ s, ran.2.result? r = some s ∧ s.state = .failed) ∧
    ∃ x ended e₁ e₂, ran = (x, e₁) ∧
      (run b r { c with timeout := none }).exec Action.apply (e.retimed r none) = (x, e₂) ∧
      ClosedBy r ended e₁ ∧ ClosedBy r (ended.retimed r none) e₂ := by
  intro r request b c e ran
  obtain ⟨-, -, hfit⟩ := run_goes_through_phases b r c
  obtain ⟨hthrough, hengine⟩ := hfit true rfl rfl
  obtain ⟨hresult, hlimit⟩ := hengine e
  obtain ⟨made, hmade, -, -, htimes⟩ :=
    hthrough _ _ (Prog.goes_trail Action.apply (run b r c) e)
  refine ⟨?_, ?_, ⟨rfl, made, hmade, htimes e _ rfl rfl⟩, ⟨_, hresult r _ rfl, rfl⟩, ?_⟩
  · exact (run_goes_through_phases b r _).1 .emptyId rfl
  · exact (run_goes_through_phases b r { c with body := none }).2.1 rfl rfl
  · refine hlimit none rfl ?_
    rintro ⟨fails, call⟩ -
    cases fails with
    | false => exact fun _ => ⟨rfl, trivial⟩
    | true => trivial

end Whole

end Conformance
