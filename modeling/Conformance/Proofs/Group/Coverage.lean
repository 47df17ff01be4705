import Conformance.Proofs.Check.Callbacks
import Conformance.Proofs.Group.Order
import Conformance.Proofs.Group.Rounds

/-!
What a group run has done for every check of its group when it comes to an outcome. The check was
judged by a verdict that does not let it pass, or its functions were called to the last and ended
well. There are two ways around this: a check returned a request to abort, or the stop token was
found set.
-/
namespace Conformance

variable {κ : Type}

/-- The operation brings a verdict on the check that does not let it pass. -/
def Action.Condemns (r : CheckRef) (op : Action κ) : Prop :=
  ∃ verdict, op.verdictOn? r = some verdict ∧ (Standing.ofVerdict? verdict).isSome

theorem Action.condemns_judge (r : CheckRef) {verdict : Verdict}
    (h : (Standing.ofVerdict? verdict).isSome) :
    (Action.request (.judge r verdict) : Action κ).Condemns r :=
  ⟨verdict, if_pos rfl, h⟩

namespace Group

variable {b : Behaviour κ} {s : Setting κ} {m : Member κ} {t u : Trail κ}

section Coverage

/-- Callbacks that are called one after the other and all end well. -/
inductive AllDone (b : Behaviour κ) : List (κ × Call) → Trail κ → Prop
  | nil : AllDone b [] []
  | cons {callback : κ} {call : Call} {rest : List (κ × Call)} {t u : Trail κ}
      (hcall : (Worker.ofCallback (b.act callback call)).Goes t (.ok (.ok ())))
      (h : AllDone b rest u) :
      AllDone b ((callback, call) :: rest) (⟨.enter call, ()⟩ :: (t ++ u))

/-- Somewhere on the trail the check was run to its end: the function before it, its body and the
function after it were called in this order, as far as it has them, and all ended well. -/
def Completed (b : Behaviour κ) (t : Trail κ) (m : Member κ) : Prop :=
  ∃ body u, m.2.fault = none ∧ m.2.body = some body ∧ AllDone b (m.2.due m.1 body) u ∧ u <:+: t

def Judged (t : Trail κ) (r : CheckRef) : Prop := ∃ a ∈ t, a.1.Condemns r

def Covered (b : Behaviour κ) (t : Trail κ) (m : Member κ) : Prop := Judged t m.1 ∨ Completed b t m

theorem Completed.mono (h : Completed b t m) (hu : t <:+: u) : Completed b u m := by
  obtain ⟨body, v, hfault, hbody, hphases, hv⟩ := h
  exact ⟨body, v, hfault, hbody, hphases, hv.trans hu⟩

theorem Judged.mono {r : CheckRef} (h : Judged t r) (hu : t <:+: u) : Judged u r := by
  obtain ⟨a, ha, hcondemns⟩ := h
  exact ⟨a, hu.subset ha, hcondemns⟩

theorem Covered.mono (h : Covered b t m) (hu : t <:+: u) : Covered b u m :=
  h.imp (·.mono hu) (·.mono hu)

end Coverage

section Policy

theorem judge_mem_skipCheck {reason : String} {x : Unit}
    (h : (skipCheck m reason).Goes t (.ok x)) :
    ⟨.request (.judge m.1 (.skipped reason)), ()⟩ ∈ t := by
  obtain ⟨-, u, rfl, hjudged⟩ := Prog.goes_request_bind h
  obtain ⟨_, v, rfl, -⟩ := Prog.goes_ask hjudged
  exact List.mem_cons_of_mem _ List.mem_cons_self

theorem judged_skipCheck {reason : String} {x : Unit} (h : (skipCheck m reason).Goes t (.ok x)) :
    Judged t m.1 := ⟨_, judge_mem_skipCheck h, Action.condemns_judge m.1 rfl⟩

theorem judged_skipAll {reason : String} {ms : List (Member κ)} {t : Trail κ} {x : Unit}
    (h : (skipAll reason ms).Goes t (.ok x)) : ∀ n ∈ ms, Judged t n.1 := by
  induction ms generalizing t with
  | nil => exact List.forall_mem_nil _
  | cons m rest ih =>
    obtain ⟨t₁, t₂, _, rfl, hfirst, hrest⟩ := Prog.goes_bind_ok h
    refine List.forall_mem_cons.mpr ⟨?_, ?_⟩
    · exact (judged_skipCheck hfirst).mono (List.prefix_append t₁ t₂).isInfix
    · exact fun n hn => (ih hrest n hn).mono (List.suffix_append t₁ t₂).isInfix

/-- The check in hand and those after it have been judged. -/
def AllJudged (t : Trail κ) (current : CheckRef) (remaining : List (Member κ)) : Prop :=
  Judged t current ∧ ∀ n ∈ remaining, Judged t n.1

theorem AllJudged.mono {current : CheckRef} {remaining : List (Member κ)}
    (h : AllJudged t current remaining) (hu : t <:+: u) : AllJudged u current remaining :=
  ⟨h.1.mono hu, fun n hn => (h.2 n hn).mono hu⟩

def IsAbort : GroupError → Prop
  | .aborted _ => True
  | .failure .. => False

theorem allJudged_fail {kind message : String} {current : CheckRef} {remaining : List (Member κ)}
    {error : GroupError} (h : (fail s kind message current remaining).Goes t (.ok error)) :
    AllJudged t current remaining := by
  obtain ⟨_, u, rfl, hrest⟩ := Prog.goes_request_bind h
  obtain ⟨t₁, t₂, _, rfl, hskipped, -⟩ := Prog.goes_bind_ok hrest
  have hinfix {a : Prog.Exchange (@Action.Resp κ)} : t₁ <:+: a :: (t₁ ++ t₂) :=
    ⟨[a], t₂, by simp⟩
  refine ⟨⟨_, List.mem_cons_self, Action.condemns_judge current rfl⟩, ?_⟩
  exact fun n hn => (judged_skipAll hskipped n hn).mono hinfix

/-- An error that is no request to abort is one for which checks have been judged. -/
theorem allJudged_react {current : CheckRef} {remaining : List (Member κ)}
    {trouble : Option Trouble} {error : GroupError}
    (h : (react s current remaining trouble).Goes t (.ok (some error))) (herror : ¬IsAbort error) :
    AllJudged t current remaining := by
  match trouble with
  | none => cases (Prog.goes_done h).2
  | some (.abort message) =>
    cases (Prog.goes_done h).2
    exact absurd trivial herror
  | some (.failure kind message) =>
    obtain ⟨t₁, t₂, failure, rfl, hfail, -⟩ := Prog.goes_bind_ok h
    exact (allJudged_fail hfail).mono (List.prefix_append t₁ t₂).isInfix

theorem allJudged_attempt {attempt : Worker κ (Option Trouble)} {current : CheckRef}
    {remaining : List (Member κ)} {error : GroupError}
    (h : (attempt.bind (react s current remaining)).Goes t (.ok (some error)))
    (herror : ¬IsAbort error) : AllJudged t current remaining := by
  obtain ⟨t₁, t₂, trouble, rfl, -, hreact⟩ := Prog.goes_bind_ok h
  exact (allJudged_react hreact herror).mono (List.suffix_append t₁ t₂).isInfix

end Policy

section Iterations

theorem allDone_of_goes {r : CheckRef} {id : String} {steps : List (Phase × κ)} {t : Trail κ}
    (h : (Running.runPhases b r id steps).Goes t (.ok (.ok ()))) :
    AllDone b (Running.calling r steps) t := by
  induction steps generalizing t with
  | nil =>
    obtain ⟨rfl, -⟩ := Prog.goes_done h
    exact .nil
  | cons step rest ih =>
    obtain ⟨phase, callback⟩ := step
    obtain ⟨t₁, t₂, result, rfl, hphase, hrest⟩ := Prog.goes_bind_ok h
    obtain ⟨_, u, rfl, hcalled⟩ := Prog.goes_request_bind hphase
    obtain ⟨u₁, u₂, answer, rfl, hcall, hended⟩ := Prog.goes_bind_ok hcalled
    cases answer with
    | ok =>
      obtain ⟨rfl, hresult⟩ := Prog.goes_done hended
      cases hresult
      rw [List.append_nil]
      exact .cons hcall (ih hrest)
    | error failure =>
      cases (Prog.goes_done hended).2
      cases (Prog.goes_done hrest).2

theorem completed_of_run (h : (Running.run b m.1 m.2).Goes t (.ok (.ok ()))) :
    Completed b t m := by
  unfold Running.run at h
  cases hfault : m.2.fault with
  | some fault =>
    rw [hfault] at h
    cases (Prog.goes_done h).2
  | none =>
    cases hbody : m.2.body with
    | none =>
      rw [hfault, hbody] at h
      cases (Prog.goes_done h).2
    | some body =>
      simp only [hfault, hbody, Worker.act, Prog.bind_eq, Prog.pure_eq] at h
      obtain ⟨began, u, rfl, hbegun⟩ := Prog.goes_request_bind h
      obtain ⟨t₁, t₂, result, rfl, hphases, hrest⟩ := Prog.goes_guarded_bind hbegun
      obtain ⟨t₃, t₄, -, rfl, -, hlast⟩ := Prog.goes_bind_ok hrest
      cases result with
      | ok result =>
        cases (Prog.goes_done hlast).2
        have hwhole : t₁ <:+: ⟨.begin m.1, began⟩ :: (t₁ ++ (t₃ ++ t₄)) :=
          ⟨[⟨.begin m.1, began⟩], t₃ ++ t₄, by simp⟩
        have hdone := allDone_of_goes hphases
        rw [Running.calling_phases] at hdone
        exact ⟨body, t₁, hfault, hbody, hdone, hwhole⟩
      | error panic => cases (Prog.goes_panic hlast).2

theorem eq_ok_of_checkTrouble {result : Except Panic (Except RunFault Unit)}
    (h : (checkTrouble m result).Goes t (.ok none)) : result = .ok (.ok ()) := by
  match result with
  | .ok (.ok ()) => rfl
  | .ok (.error fault) =>
    cases fault with
    | aborted message => cases (Prog.goes_done h).2
    | _ =>
      obtain ⟨t₁, t₂, text, rfl, -, hwritten⟩ := Prog.goes_bind_ok h
      obtain ⟨_, u, rfl, hdone⟩ := Prog.goes_request_bind hwritten
      cases (Prog.goes_done hdone).2
  | .error panic =>
    obtain ⟨_, u, rfl, hdone⟩ := Prog.goes_request_bind h
    cases (Prog.goes_done hdone).2

/-- A check that runs into no trouble was skipped or completed. -/
theorem covered_tryCheck (h : (tryCheck s m).Goes t (.ok none)) : Covered s.behaviour t m := by
  obtain ⟨t₁, t₂, decision, rfl, -, hdecided⟩ := Prog.goes_bind_ok h
  refine Covered.mono (t := t₂) ?_ (List.suffix_append t₁ t₂).isInfix
  cases decision with
  | some reason =>
    obtain ⟨t₃, t₄, _, rfl, hskipped, -⟩ := Prog.goes_bind_ok hdecided
    exact .inl ((judged_skipCheck hskipped).mono (List.prefix_append t₃ t₄).isInfix)
  | none =>
    obtain ⟨t₃, t₄, -, rfl, -, hgranted⟩ := Prog.goes_bind_ok hdecided
    obtain ⟨t₅, t₆, result, rfl, hrun, htrouble⟩ := Prog.goes_guarded_bind hgranted
    obtain rfl := eq_ok_of_checkTrouble htrouble
    exact .inr ((completed_of_run hrun).mono ⟨t₃, t₆, by simp⟩)

theorem covered_runUnlessExcused {remaining : List (Member κ)}
    (h : (runUnlessExcused s m remaining).Goes t (.ok none)) : Covered s.behaviour t m := by
  rw [runUnlessExcused_eq] at h
  obtain ⟨t₁, t₂, trouble, rfl, htry, hreact⟩ := Prog.goes_bind_ok h
  refine Covered.mono (t := t₁) ?_ (List.prefix_append t₁ t₂).isInfix
  match trouble with
  | none => exact covered_tryCheck htry
  | some (.abort message) => cases (Prog.goes_done hreact).2
  | some (.failure kind message) =>
    obtain ⟨t₃, t₄, failure, rfl, -, hdone⟩ := Prog.goes_bind_ok hreact
    cases (Prog.goes_done hdone).2

/-- An iteration without an error has covered its check. One with an error that is no request to
abort has judged its check and all that come after it. -/
theorem goes_iteration {remaining : List (Member κ)} {errors : List GroupError}
    (h : (iteration s m remaining).Goes t (.ok errors)) :
    (errors = [] → Covered s.behaviour t m) ∧
      ∀ error ∈ errors, ¬IsAbort error → AllJudged t m.1 remaining := by
  rw [iteration_eq] at h
  obtain ⟨t₁, u, before, rfl, hbefore, hrest⟩ := Prog.goes_bind_ok h
  obtain ⟨t₂, v, body, rfl, hbody, hlast⟩ := Prog.goes_bind_ok hrest
  obtain ⟨t₃, t₄, after, rfl, hafter, hdone⟩ := Prog.goes_bind_ok hlast
  cases (Prog.goes_done hdone).2
  have hfirst : t₁ <:+: t₁ ++ (t₂ ++ (t₃ ++ t₄)) := (List.prefix_append _ _).isInfix
  have hsecond : t₂ <:+: t₁ ++ (t₂ ++ (t₃ ++ t₄)) := ⟨t₁, t₃ ++ t₄, by simp⟩
  have hthird : t₃ <:+: t₁ ++ (t₂ ++ (t₃ ++ t₄)) := ⟨t₁ ++ t₂, t₄, by simp⟩
  rw [runHook_eq] at hbefore hafter
  constructor
  · intro hnone
    simp only [List.append_eq_nil_iff, Option.toList_eq_nil_iff] at hnone
    obtain ⟨⟨rfl, rfl⟩, rfl⟩ := hnone
    exact (covered_runUnlessExcused hbody).mono hsecond
  · intro error herror hfailure
    simp only [List.mem_append, Option.mem_toList] at herror
    rcases herror with (rfl | rfl) | rfl
    · exact (allJudged_attempt hbefore hfailure).mono hfirst
    · cases before with
      | none =>
        rw [Option.isNone_none, if_pos rfl, runUnlessExcused_eq] at hbody
        exact (allJudged_attempt hbody hfailure).mono hsecond
      | some failure => cases (Prog.goes_done hbody).2
    · exact (allJudged_attempt hafter hfailure).mono hthird

end Iterations

section Runs

/-- What a run has to show for checks: they are covered, unless one of them came to a request to
abort or the stop token was found set. -/
def Accounts (b : Behaviour κ) (token : Nat) (t : Trail κ) (ms : List (Member κ))
    (errors : List GroupError) : Prop :=
  (∀ n ∈ ms, Covered b t n) ∨ (∃ error ∈ errors, IsAbort error) ∨ ⟨.stopped token, true⟩ ∈ t

variable {token : Nat} {ms : List (Member κ)} {errors : List GroupError}

theorem Accounts.mono (h : Accounts b token t ms errors) (hu : t <:+: u)
    {others : List GroupError} (herrors : errors ⊆ others) : Accounts b token u ms others := by
  rcases h with hcovered | ⟨error, hmem, habort⟩ | hstopped
  · exact .inl fun n hn => (hcovered n hn).mono hu
  · exact .inr (.inl ⟨error, herrors hmem, habort⟩)
  · exact .inr (.inr (hu.subset hstopped))

theorem accounts_of_allJudged {current : CheckRef} (h : AllJudged t current ms) :
    Accounts b token t ms errors := .inl fun n hn => .inl (h.2 n hn)

theorem accounts_runFrom {ms : List (Member κ)} :
    ∀ {index failed : Nat} {t : Trail κ} {outcome : Outcome},
      (runFrom s index failed ms).Goes t (.ok outcome) →
      Accounts s.behaviour s.token t ms outcome.errors := by
  induction ms with
  | nil => exact fun _ => .inl (List.forall_mem_nil _)
  | cons m later ih =>
    intro index failed t outcome h
    rw [runFrom_cons] at h
    obtain ⟨stopped, t, rfl, hgone⟩ := Prog.goes_request_bind h
    cases stopped with
    | true => exact .inr (.inr List.mem_cons_self)
    | false =>
      obtain ⟨t₁, t₂, errors, rfl, hround, hrest⟩ := Prog.goes_bind_ok hgone
      obtain ⟨hwell, hbad⟩ := goes_iteration hround
      have hinfix : t₁ <:+: ⟨.stopped s.token, false⟩ :: (t₁ ++ t₂) :=
        ⟨[⟨.stopped s.token, false⟩], t₂, by simp⟩
      cases errors with
      | cons error errors =>
        cases (Prog.goes_done hrest).2
        by_cases habort : IsAbort error
        · exact .inr (.inl ⟨error, List.mem_cons_self, habort⟩)
        · obtain ⟨hm, hlater⟩ := (hbad error List.mem_cons_self habort).mono hinfix
          exact .inl (List.forall_mem_cons.mpr ⟨.inl hm, fun n hn => .inl (hlater n hn)⟩)
      | nil =>
        obtain ⟨status, t₃, rfl, hmoved⟩ := Prog.goes_request_bind hrest
        obtain ⟨_, t₄, rfl, hnext⟩ := Prog.goes_request_bind hmoved
        have hsuffix {a b c : Prog.Exchange (@Action.Resp κ)} : t₄ <:+: a :: (t₁ ++ b :: c :: t₄) :=
          ⟨a :: (t₁ ++ [b, c]), [], by simp⟩
        rcases ih hnext with hcovered | habort | hstopped
        · refine .inl (List.forall_mem_cons.mpr ⟨(hwell rfl).mono hinfix, ?_⟩)
          exact fun n hn => (hcovered n hn).mono hsuffix
        · exact .inr (.inl habort)
        · exact .inr (.inr (hsuffix.subset hstopped))

theorem accounts_upToLast {first : Member κ} {rest : List (Member κ)} {outcome : Outcome}
    (h : (upToLast s first rest).Goes t (.ok outcome)) :
    Accounts s.behaviour s.token t (first :: rest) outcome.errors := by
  obtain ⟨t₁, t₂, before, rfl, hbefore, hrest⟩ := Prog.goes_bind_ok h
  cases before with
  | some error =>
    cases (Prog.goes_done hrest).2
    by_cases habort : IsAbort error
    · exact .inr (.inl ⟨error, List.mem_cons_self, habort⟩)
    · rw [runHook_eq] at hbefore
      have hjudged := allJudged_attempt hbefore habort
      exact accounts_of_allJudged (hjudged.mono (List.prefix_append t₁ t₂).isInfix)
  | none =>
    obtain ⟨_, t₃, rfl, hloop⟩ := Prog.goes_request_bind hrest
    refine (accounts_runFrom hloop).mono ?_ (List.Subset.refl _)
    exact ⟨t₁ ++ [⟨.setCursor s.group (some 0), ()⟩], [], by simp⟩

theorem accounts_runSelected {first : Member κ} {rest : List (Member κ)} {outcome : Outcome}
    (h : (runSelected s first rest).Goes t (.ok outcome)) :
    Accounts s.behaviour s.token t (first :: rest) outcome.errors := by
  rw [runSelected_eq] at h
  obtain ⟨t₁, t₂, inner, rfl, hinner, hclosing⟩ := Prog.goes_bind_ok h
  obtain ⟨t₃, t₄, after, rfl, -, hdone⟩ := Prog.goes_bind_ok hclosing
  cases (Prog.goes_done hdone).2
  refine (accounts_upToLast hinner).mono (List.prefix_append t₁ _).isInfix ?_
  exact List.subset_append_left _ _

/-- The selection skips the checks that it leaves out. -/
theorem skips_select {filter : Label.Filter} {ms : List (Member κ)} {chosen : List (Member κ)}
    {t : Trail κ} (h : (select filter ms).Goes t (.ok chosen)) :
    ∀ n ∈ ms, filter.selects n.2.labels = false →
      ⟨.request (.judge n.1 (.skipped notMatching)), ()⟩ ∈ t := by
  induction ms generalizing t chosen with
  | nil => exact List.forall_mem_nil _
  | cons m rest ih =>
    by_cases hselects : filter.selects m.2.labels = true
    · rw [select, if_pos hselects] at h
      obtain ⟨t₁, t₂, later, rfl, hlater, -⟩ := Prog.goes_bind_ok h
      refine List.forall_mem_cons.mpr ⟨fun hout => ?_, fun n hn hout => ?_⟩
      · rw [hselects] at hout
        cases hout
      · exact List.mem_append_left _ (ih hlater n hn hout)
    · rw [select, if_neg hselects] at h
      obtain ⟨t₁, t₂, _, rfl, hskipped, hlater⟩ := Prog.goes_bind_ok h
      refine List.forall_mem_cons.mpr ⟨fun _ => ?_, fun n hn hout => ?_⟩
      · exact List.mem_append_left _ (judge_mem_skipCheck hskipped)
      · exact List.mem_append_right _ (ih hlater n hn hout)

/-- A run that comes to an outcome accounts for every check that it found in its group. -/
theorem accounts_run {g : Nat} {filter : Label.Filter} {handle : Option AbortHandle}
    {outcome : Outcome} (h : (run b g filter token handle).Goes t (.ok outcome)) :
    ∃ checks, ⟨.request (.checks g), checks⟩ ∈ t ∧
      Accounts b token t (members g checks) outcome.errors := by
  obtain ⟨_, t, rfl, hreset⟩ := Prog.goes_request_bind h
  obtain ⟨checks, t, rfl, hread⟩ := Prog.goes_request_bind hreset
  refine ⟨checks, by simp, ?_⟩
  obtain ⟨t₁, t₂, chosen, rfl, hselect, hrest⟩ := Prog.goes_bind_ok hread
  have hskipped := skips_select hselect
  cases (goes_select hselect).1
  have hinfix {a b : Prog.Exchange (@Action.Resp κ)} : t₁ <:+: a :: b :: (t₁ ++ t₂) :=
    ⟨[a, b], t₂, by simp⟩
  have hchosen : Accounts b token t₂ (selected filter (members g checks)) outcome.errors := by
    cases hselected : selected filter (members g checks) with
    | nil => exact .inl (List.forall_mem_nil _)
    | cons first rest =>
      rw [hselected] at hrest
      obtain ⟨hooks, t₃, rfl, hnamed⟩ := Prog.goes_request_bind hrest
      obtain ⟨name, t₄, rfl, hrun⟩ := Prog.goes_request_bind hnamed
      refine (accounts_runSelected hrun).mono ?_ (List.Subset.refl _)
      exact ⟨[⟨.hooks g, hooks⟩, ⟨.groupName g, name⟩], [], by simp⟩
  have hsuffix {a b : Prog.Exchange (@Action.Resp κ)} : t₂ <:+: a :: b :: (t₁ ++ t₂) :=
    ⟨a :: b :: t₁, [], by simp⟩
  rcases hchosen with hcovered | habort | hstopped
  · refine .inl fun n hn => ?_
    by_cases hselects : filter.selects n.2.labels = true
    · exact (hcovered n (List.mem_filter.mpr ⟨hn, hselects⟩)).mono hsuffix
    · have hout : filter.selects n.2.labels = false := Bool.not_eq_true _ ▸ hselects
      exact .inl ⟨_, hinfix.subset (hskipped n hn hout), Action.condemns_judge n.1 rfl⟩
  · exact .inr (.inl habort)
  · exact .inr (.inr (hsuffix.subset hstopped))

end Runs

end Group

end Conformance
