import Conformance.Proofs.Group.Course
import Conformance.Proofs.Group.Interruption
import Conformance.Proofs.Group.Selection

/-!
The order of calls of a whole group run: of one iteration, of the loop over the selected checks,
and of the run with the hooks around the loop.
-/
namespace Conformance.Group

variable {κ : Type} {b : Behaviour κ} {s : Setting κ} {t : Trail κ}

theorem course_runUnlessExcused {m : Member κ} {remaining : List (Member κ)}
    {x : Except Panic (Option GroupError)} (h : (runUnlessExcused s m remaining).Goes t x) :
    ∃ asked reasons panicked turns, Tells s.behaviour s.token t (asked ++ turns) ∧
      ExcuseTurns m.1 0 m.2.skips asked reasons panicked ∧
      ((Skips m.2 reasons panicked ∧ turns = [] ∧ Ending.shown Option.isSome x = .well) ∨
        (¬Skips m.2 reasons panicked ∧ BodyTurns .ofFailure m turns (.shown Option.isSome x))) := by
  simp only [runUnlessExcused, Prog.bind_eq, Prog.pure_eq] at h
  rcases Prog.goes_bind h with ⟨t₁, t₂, decision, rfl, hasked, hrest⟩ | ⟨q, -, hasked⟩
  · obtain ⟨asked, reasons, panicked, decided, htells, hturns, hdecided, hskips⟩ :=
      course_skipDecision hasked s.token
    cases hdecided
    cases decision with
    | some reason =>
      obtain ⟨t₃, t₄, -, rfl, hquiet, hdone⟩ :=
        (quiet_skipCheck m reason).goes_bind hrest s.behaviour s.token
      obtain ⟨rfl, rfl⟩ := Prog.goes_done hdone
      exact ⟨asked, reasons, panicked, [], htells.append (by simpa using hquiet), hturns,
        .inl ⟨hskips.mp rfl, rfl, rfl⟩⟩
    | none =>
      have hcheck : ∃ turns, Tells s.behaviour s.token t₂ turns ∧
          BodyTurns .ofFailure m turns (.shown Option.isSome x) := by
        cases hhandle : s.handle with
        | some handle =>
          rw [hhandle] at hrest
          obtain ⟨t₃, t₄, -, rfl, hquiet, hcheck⟩ :=
            (quiet_act (.grant m.1 handle) trivial).goes_bind hrest s.behaviour s.token
          obtain ⟨turns, htold, hbody⟩ := course_runCheck hcheck s.token
          exact ⟨turns, by simpa using hquiet.append htold, hbody⟩
        | none =>
          rw [hhandle] at hrest
          exact course_runCheck hrest s.token
      obtain ⟨turns, htold, hbody⟩ := hcheck
      refine ⟨asked, reasons, panicked, turns, htells.append htold, hturns, .inr ⟨?_, hbody⟩⟩
      intro hskip
      simpa using hskips.mpr hskip
  · obtain ⟨asked, reasons, panicked, decided, -, -, hdecided, -⟩ :=
      course_skipDecision hasked s.token
    cases hdecided

/-- The body of an iteration is that of its check unless the hook before it failed. -/
theorem course_readied {m : Member κ} {remaining : List (Member κ)} {turns : List (Turn κ)}
    {x : Except Panic (Option GroupError)}
    (hbefore : HookTurns .ofFailure s.hooks.beforeEach (.beforeEach m.1) turns .well)
    (h : (runUnlessExcused s m remaining).Goes t x) :
    ∃ later, Tells s.behaviour s.token t later ∧
      CheckTurns .ofFailure s.hooks m (turns ++ later) (.shown Option.isSome x) := by
  obtain ⟨asked, reasons, panicked, body, htells, hasked, hcases⟩ := course_runUnlessExcused h
  rcases hcases with ⟨hskips, rfl, hwell⟩ | ⟨hskips, hbody⟩
  · refine ⟨asked, by simpa using htells, ?_⟩
    rw [hwell]
    exact .excused hbefore hasked hskips
  · exact ⟨asked ++ body, htells, .ran hbefore hasked hskips hbody⟩

theorem shown_ok_ne_cut {α : Type} (bad : α → Bool) (value : α) (panic : Panic) :
    Ending.shown bad (.ok value) ≠ .cut panic := by
  intro h
  simp only [Ending.shown] at h
  split at h <;> cases h

theorem shown_error {α : Type} (bad : α → Bool) (panic : Panic) :
    Ending.shown bad (.error panic) = .cut panic := rfl

theorem shown_followedBy_cut {α : Type} (bad : α → Bool) (value : α) (panic : Panic) :
    (Ending.shown bad (.ok value)).followedBy (.cut panic) = .cut panic := by
  simp only [Ending.shown]
  cases bad value <;> rfl

theorem shown_append (errors : List GroupError) (last : Option GroupError) :
    (Ending.shown (!List.isEmpty ·) (.ok errors)).followedBy (.shown Option.isSome (.ok last)) =
      .shown (!List.isEmpty ·) (.ok (errors ++ last.toList)) := by
  cases errors <;> cases last <;> rfl

theorem course_closed {m : Member κ} {remaining : List (Member κ)} {turns : List (Turn κ)}
    {errors : List GroupError} {x : Except Panic (List GroupError)}
    (hturns : CheckTurns .ofFailure s.hooks m turns (.shown (!List.isEmpty ·) (.ok errors)))
    (h : ((runHook s "afterEach" s.hooks.afterEach (.afterEach m.1) m.1 remaining).bind
      fun after => .done (errors ++ after.toList)).Goes t x) :
    ∃ after, Tells s.behaviour s.token t after ∧
      IterationTurns .ofFailure s.hooks m (turns ++ after) (.shown (!List.isEmpty ·) x) := by
  have hcut := shown_ok_ne_cut (!List.isEmpty ·) errors
  rcases Prog.goes_bind h with ⟨t₁, t₂, last, rfl, hhook, hdone⟩ | ⟨q, rfl, hhook⟩
  · obtain ⟨rfl, rfl⟩ := Prog.goes_done hdone
    obtain ⟨after, htells, hafter⟩ := course_runHook hhook s.token
    refine ⟨after, by simpa using htells, ?_⟩
    rw [← shown_append]
    exact .closed hturns hcut hafter
  · obtain ⟨after, htells, hafter⟩ := course_runHook hhook s.token
    refine ⟨after, htells, ?_⟩
    have hclosed := IterationTurns.closed hturns hcut hafter
    rwa [shown_error, shown_followedBy_cut] at hclosed

theorem course_iteration {m : Member κ} {remaining : List (Member κ)}
    {x : Except Panic (List GroupError)} (h : (iteration s m remaining).Goes t x) :
    ∃ turns, Tells s.behaviour s.token t turns ∧
      IterationTurns .ofFailure s.hooks m turns (.shown (!List.isEmpty ·) x) := by
  simp only [iteration, Prog.bind_eq, Prog.pure_eq] at h
  rcases Prog.goes_bind h with ⟨t₁, t₂, before, rfl, hhook, hrest⟩ | ⟨q, rfl, hhook⟩
  · obtain ⟨turns, htells, hbefore⟩ := course_runHook hhook s.token
    cases before with
    | some error =>
      have hunready : CheckTurns .ofFailure s.hooks m turns
          (.shown (!List.isEmpty ·) (.ok [error])) := .unready hbefore nofun
      obtain ⟨after, hlater, hclosed⟩ := course_closed hunready hrest
      exact ⟨turns ++ after, htells.append hlater, hclosed⟩
    | none =>
      rcases Prog.goes_bind hrest with ⟨t₃, t₄, body, rfl, hbody, hlast⟩ | ⟨q, rfl, hbody⟩
      · obtain ⟨later, htold, hchecked⟩ := course_readied hbefore hbody
        have hlisted : CheckTurns .ofFailure s.hooks m (turns ++ later)
            (.shown (!List.isEmpty ·) (.ok body.toList)) := by
          cases body <;> exact hchecked
        obtain ⟨after, hlater, hclosed⟩ := course_closed hlisted hlast
        refine ⟨turns ++ later ++ after, ?_, hclosed⟩
        rw [List.append_assoc]
        exact htells.append (htold.append hlater)
      · obtain ⟨later, htold, hchecked⟩ := course_readied hbefore hbody
        exact ⟨turns ++ later, htells.append htold, .cut hchecked⟩
  · obtain ⟨turns, htells, hbefore⟩ := course_runHook hhook s.token
    exact ⟨turns, htells, .cut (.unready hbefore nofun)⟩

/-- The outcomes of a group run that ended badly. -/
def failing (o : Outcome) : Bool := !o.errors.isEmpty

theorem course_runFrom {ms : List (Member κ)} :
    ∀ {index failed : Nat} {t : Trail κ} {x : Except Panic Outcome},
      (runFrom s index failed ms).Goes t x →
      ∃ turns, Tells s.behaviour s.token t turns ∧
        LoopTurns .ofFailure s.hooks ms turns (.shown failing x) := by
  induction ms with
  | nil =>
    intro index failed t x h
    obtain ⟨rfl, rfl⟩ := Prog.goes_done h
    exact ⟨[], .nil, .finished⟩
  | cons m rest ih =>
    intro index failed t x h
    simp only [runFrom, Prog.bind_eq, Prog.pure_eq] at h
    obtain ⟨stopped, t, rfl, hlooked⟩ := Prog.goes_request_bind h
    cases stopped with
    | true =>
      obtain ⟨rfl, rfl⟩ := Prog.goes_done hlooked
      exact ⟨_, .look .nil, .stopped m rest⟩
    | false =>
      rcases Prog.goes_bind hlooked with ⟨t₁, t₂, errors, rfl, hround, hrest⟩ | ⟨q, rfl, hround⟩
      · obtain ⟨turns, htells, hturns⟩ := course_iteration hround
        cases errors with
        | cons error errors =>
          obtain ⟨rfl, rfl⟩ := Prog.goes_done hrest
          exact ⟨_, .look (by simpa using htells), .failed rest hturns nofun⟩
        | nil =>
          obtain ⟨t₃, t₄, status, rfl, hasked, hmoving⟩ :=
            (quiet_ask (.status m.1)).goes_bind hrest s.behaviour s.token
          obtain ⟨t₅, t₆, -, rfl, hmoved, hlater⟩ :=
            (quiet_act (.setCursor s.group _) trivial).goes_bind hmoving s.behaviour s.token
          obtain ⟨later, htold, hloop⟩ := ih hlater
          exact ⟨_, .look (htells.append (hasked.append (hmoved.append htold))),
            .next hturns hloop⟩
      · obtain ⟨turns, htells, hturns⟩ := course_iteration hround
        exact ⟨_, .look htells, .failed rest hturns nofun⟩

theorem failing_append (o : Outcome) (last : Option GroupError) :
    (Ending.shown failing (.ok o)).followedBy (.shown Option.isSome (.ok last)) =
      .shown failing (.ok ⟨o.errors ++ last.toList, o.failed⟩) := by
  obtain ⟨errors, failed⟩ := o
  cases errors <;> cases last <;> rfl

theorem course_ended {first : Member κ} {rest : List (Member κ)} {last : CheckRef}
    {turns : List (Turn κ)} {outcome : Outcome} {x : Except Panic Outcome}
    (hturns : InnerTurns .ofFailure s.group s.hooks (first :: rest) turns
      (.shown failing (.ok outcome)))
    (h : ((runHook s "afterAll" s.hooks.afterAll
      (.afterAll s.group ((first :: rest).map Prod.fst)) last []).bind
        fun after => .done ⟨outcome.errors ++ after.toList, outcome.failed⟩).Goes t x) :
    ∃ after, Tells s.behaviour s.token t after ∧
      RunTurns .ofFailure s.group s.hooks (first :: rest) (turns ++ after) (.shown failing x) := by
  have hcut := shown_ok_ne_cut failing outcome
  have hne := List.cons_ne_nil first rest
  rcases Prog.goes_bind h with ⟨t₁, t₂, error, rfl, hhook, hdone⟩ | ⟨q, rfl, hhook⟩
  · obtain ⟨rfl, rfl⟩ := Prog.goes_done hdone
    obtain ⟨after, htells, hafter⟩ := course_runHook hhook s.token
    refine ⟨after, by simpa using htells, ?_⟩
    rw [← failing_append]
    exact .closed hne hturns hcut hafter
  · obtain ⟨after, htells, hafter⟩ := course_runHook hhook s.token
    refine ⟨after, htells, ?_⟩
    have hclosed := RunTurns.closed hne hturns hcut hafter
    rwa [shown_error, shown_followedBy_cut] at hclosed

theorem course_runSelected {first : Member κ} {rest : List (Member κ)} {x : Except Panic Outcome}
    (h : (runSelected s first rest).Goes t x) :
    ∃ turns, Tells s.behaviour s.token t turns ∧
      RunTurns .ofFailure s.group s.hooks (first :: rest) turns (.shown failing x) := by
  simp only [runSelected, Prog.bind_eq, Prog.pure_eq] at h
  have hne := List.cons_ne_nil first rest
  rcases Prog.goes_bind h with ⟨t₁, t₂, before, rfl, hhook, hrest⟩ | ⟨q, rfl, hhook⟩
  · obtain ⟨turns, htells, hbefore⟩ := course_runHook hhook s.token
    cases before with
    | some error =>
      have hunready : InnerTurns .ofFailure s.group s.hooks (first :: rest) turns
          (.shown failing (.ok ⟨[error], 0⟩)) := .unready hbefore nofun
      obtain ⟨after, hlater, hclosed⟩ := course_ended hunready hrest
      exact ⟨turns ++ after, htells.append hlater, hclosed⟩
    | none =>
      obtain ⟨t₃, t₄, -, rfl, hmoved, hlooped⟩ :=
        (quiet_act (.setCursor s.group (some 0)) trivial).goes_bind hrest s.behaviour s.token
      rcases Prog.goes_bind hlooped with ⟨t₅, t₆, outcome, rfl, hloop, hlast⟩ | ⟨q, rfl, hloop⟩
      · obtain ⟨later, htold, hturns⟩ := course_runFrom hloop
        obtain ⟨after, hlater, hclosed⟩ := course_ended (.looped hbefore hturns) hlast
        refine ⟨turns ++ later ++ after, ?_, hclosed⟩
        rw [List.append_assoc]
        exact htells.append (hmoved.append (htold.append hlater))
      · obtain ⟨later, htold, hturns⟩ := course_runFrom hloop
        exact ⟨turns ++ later, htells.append (hmoved.append htold),
          .cut hne (.looped hbefore hturns)⟩
  · obtain ⟨turns, htells, hbefore⟩ := course_runHook hhook s.token
    exact ⟨turns, htells, .cut hne (.unready hbefore nofun)⟩

theorem goes_select {filter : Label.Filter} {ms : List (Member κ)} :
    ∀ {t : Trail κ} {x : Except Panic (List (Member κ))}, (select filter ms).Goes t x →
      x = .ok (selected filter ms) ∧ ∀ a ∈ t, IsAside a.1 := by
  induction ms with
  | nil =>
    intro t x h
    obtain ⟨rfl, rfl⟩ := Prog.goes_done h
    exact ⟨rfl, List.forall_mem_nil _⟩
  | cons m rest ih =>
    intro t x h
    by_cases hselects : filter.selects m.2.labels = true
    · rw [select, if_pos hselects] at h
      rcases Prog.goes_bind h with ⟨t₁, t₂, later, rfl, hlater, hdone⟩ | ⟨q, -, hlater⟩
      · obtain ⟨hvalue, haside⟩ := ih hlater
        obtain ⟨rfl, rfl⟩ := Prog.goes_done hdone
        cases hvalue
        refine ⟨by simp only [selected, List.filter_cons, hselects, if_true], ?_⟩
        rwa [List.append_nil]
      · cases (ih hlater).1
    · rw [select, if_neg hselects] at h
      rcases Prog.goes_bind h with ⟨t₁, t₂, value, rfl, hskip, hlater⟩ | ⟨q, -, hskip⟩
      · obtain ⟨rfl, haside⟩ := ih hlater
        refine ⟨by simp only [selected, List.filter_cons, if_neg hselects], ?_⟩
        exact List.forall_mem_append.mpr ⟨(quiet_skipCheck m notMatching t₁ _ hskip).1, haside⟩
      · obtain ⟨-, value, hvalue⟩ := quiet_skipCheck m notMatching t _ hskip
        cases hvalue

/-- The law of a whole run, for the checks and hooks that it is given to see. -/
theorem course_run {g : Nat} {filter : Label.Filter} {token : Nat} {handle : Option AbortHandle}
    {checks : List (Check κ)} {x : Except Panic Outcome}
    (h : (run b g filter token handle).Goes
      (⟨.setCursor g none, ()⟩ :: ⟨.request (.checks g), checks⟩ :: t) x) :
    ∃ hooks turns, (⟨.hooks g, hooks⟩ ∈ t ∨ selected filter (members g checks) = []) ∧
      Tells b token t turns ∧
      RunTurns .ofFailure g hooks (selected filter (members g checks)) turns
        (.shown failing x) := by
  simp only [run, Worker.act, Worker.ask, Prog.bind_eq, Prog.pure_eq] at h
  cases h with
  | ask h =>
    cases h with
    | ask h =>
      simp only [Prog.done_bind] at h
      rcases Prog.goes_bind h with ⟨t₁, t₂, chosen, rfl, hselect, hrest⟩ | ⟨q, -, hselect⟩
      · obtain ⟨hchosen, haside⟩ := goes_select hselect
        cases hchosen
        have hquiet : Tells b token t₁ [] := tells_of_aside haside
        cases hchosen : selected filter (members g checks) with
        | nil =>
          rw [hchosen] at hrest
          obtain ⟨rfl, rfl⟩ := Prog.goes_done hrest
          exact ⟨.none, [], .inr rfl, by simpa using hquiet, .idle rfl⟩
        | cons first rest =>
          rw [hchosen] at hrest
          obtain ⟨hooks, t₂, rfl, hnamed⟩ := Prog.goes_request_bind hrest
          obtain ⟨name, t₂, rfl, hselected⟩ := Prog.goes_request_bind hnamed
          obtain ⟨turns, htells, hturns⟩ := course_runSelected hselected
          refine ⟨hooks, turns, .inl (List.mem_append_right _ List.mem_cons_self), ?_, hturns⟩
          exact hquiet.append (.aside _ _ trivial (.aside _ _ trivial htells))
      · cases (goes_select hselect).1

end Conformance.Group
