import Conformance.Proofs.Run.InTurn
import Conformance.Proofs.Run.Passing

/-!
A run with its workers, against its groups run one by one. Where callbacks keep to the checks of
their own group and nobody puts an end to the run, it comes to its end in whatever order the run and
its workers take their steps, and what it comes to is put together from what each group comes to
when it is run alone on the engine on which the run was started.
-/
namespace Conformance.Run

open Schedule Scene Engine

variable {κ α : Type} {b : Behaviour κ} {filter : Label.Filter} {limit : Option Nat}
  {catalog : Catalog} {results : Results} {e e' : Engine κ}

section Whole

/-- The answer of a run and the engine that it leaves are those of the groups run alone. The run
gives a report when all groups have been run and recorded. The groups after a check without a
catalog entry are not run. -/
structure Refines (b : Behaviour κ) (filter : Label.Filter) (catalog : Catalog) (e : Engine κ)
    (solos : List (Outcome × Engine κ)) (answer : Answer) (e' : Engine κ) : Prop where
  solo {g : Nat} {x : Outcome × Engine κ} (h : solos[g]? = some x) :
    ∃ time, x = alone b filter e g time
  result? {r : CheckRef} {x : Outcome × Engine κ} (h : solos[r.group]? = some x) :
    e'.result? r = x.2.result? r
  untouched {r : CheckRef} (h : solos.length ≤ r.group) : e'.result? r = e.result? r
  length_le : solos.length ≤ e.groups.length
  report {r : RunReport} (h : answer = .ok r) : solos.length = e.groups.length ∧
    r.abortReason = none ∧ r.errors = (solos.flatMap fun x => x.1.errors).map GroupError.text ∧
    r.failedChecks = .ofNat (solos.map fun x => x.1.failed).sum
  missing {first : Catalog.MissingEntry} (h : answer = .error first) :
    ∃ r c, e'.definition? r = some c ∧ catalog.lookup c.id = .error first

theorem inTurn_start (b : Behaviour κ) (filter : Label.Filter) (results : Results)
    (e : Engine κ) : InTurn b filter e [] ⟨none, [], 0, results⟩ e.attach.tick where
  solo h := by cases h
  result? h := by cases h
  view _ := rfl
  abort := rfl
  errors := rfl
  failed := rfl
  names := rfl
  inbox := rfl
  tokens := rfl

/-- What comes after the groups changes nothing about them. -/
theorem InTurn.refines {solos : List (Outcome × Engine κ)} {s : Progress} {reached : Engine κ}
    (h : InTurn b filter e solos s reached) (hlength : solos.length ≤ e.groups.length)
    {answer : Answer} (hgroups : e'.groups = reached.groups)
    (hreport : ∀ r, answer = .ok r → solos.length = e.groups.length ∧ r.abortReason = s.abort ∧
      r.errors = s.errors.map GroupError.text ∧ r.failedChecks = .ofNat s.failed)
    (hmissing : ∀ first, answer = .error first →
      ∃ r c, reached.definition? r = some c ∧ catalog.lookup c.id = .error first) :
    Refines b filter catalog e solos answer e' := by
  have hresult (r : CheckRef) : e'.result? r = reached.result? r := by
    simp only [Engine.result?, Engine.check?, Engine.group?, hgroups]
  have hdefinition (r : CheckRef) : e'.definition? r = reached.definition? r := by
    simp only [Engine.definition?, Engine.check?, Engine.group?, hgroups]
  refine ⟨h.solo, fun hx => (hresult _).trans (h.result? hx), ?_, hlength, ?_, ?_⟩
  · intro r hr
    rw [hresult, Engine.result?, Engine.result?, check?_eq_view, check?_eq_view, h.view hr]
  · intro r hr
    obtain ⟨hall, habort, herrors, hfailed⟩ := hreport r hr
    rw [habort, h.abort, herrors, h.errors, hfailed, h.failed]
    exact ⟨hall, rfl, rfl, rfl⟩
  · intro first hfirst
    obtain ⟨r, c, hc, hlookup⟩ := hmissing first hfirst
    exact ⟨r, c, (hdefinition r).trans hc, hlookup⟩

theorem calmly_run (hb : Homely b) (results : Results) (e : Engine κ) :
    Calmly (limit.map (e.clock + ·)) (run b filter limit catalog results) e fun y e' =>
      ∃ solos, Refines b filter catalog e solos y.2 e' := by
  have hattach : Calmly (limit.map (e.clock + ·)) (move .attach) e fun number u =>
      number = e.inbox.run + 1 ∧ u = e.attach := calmly_plain (only_move .attach trivial) rfl
  refine hattach.bind ?_
  rintro _ _ ⟨rfl, rfl⟩
  refine calmly_act_bind fun _ => ?_
  have hcount : Calmly (limit.map (e.clock + ·)) (move .groupCount) e.attach.tick fun count u =>
      count = e.groups.length ∧ u = e.attach.tick :=
    calmly_plain (only_move .groupCount trivial) rfl
  refine hcount.bind ?_
  rintro _ _ ⟨rfl, rfl⟩
  have hdetach (u : Engine κ) : Calmly (limit.map (e.clock + ·)) (move .detach) u fun _ u' =>
      u' = u.detach := (calmly_plain (only_move .detach trivial) rfl).mono fun _ _ h => h.2
  let p : Plan κ := ⟨b, e.inbox.run + 1, filter, limit.map (e.clock + ·), catalog⟩
  have hgroups := calmly_runGroups (p := p) hb rfl e.groups.length (inTurn_start b filter results e)
  rw [List.length_nil, ← List.range_eq_range', Nat.zero_add] at hgroups
  refine hgroups.bind ?_
  rintro ⟨s, missing⟩ u ⟨solos, hturn, hlength, hall, hfirst⟩
  cases missing with
  | some first =>
    refine (hdetach u).bind ?_
    rintro _ _ rfl
    refine calmly_done ⟨solos, hturn.refines hlength rfl nofun ?_⟩
    intro missing hmissing
    cases hmissing
    exact hfirst first rfl
  | none =>
    refine (calmly_report p s e.clock (List.range e.groups.length) u).bind ?_
    rintro r _ ⟨⟨habort, herrors, hfailed, -⟩, clock, rfl⟩
    refine (hdetach _).bind ?_
    rintro _ _ rfl
    refine calmly_done ⟨solos, hturn.refines hlength rfl ?_ nofun⟩
    intro r' hr'
    cases hr'
    exact ⟨hall rfl, habort, herrors, hfailed⟩

/-- Where everybody has finished, no calm step is left. -/
theorem plays_finished {deadline : Option Nat} {value : α} {ws : List (Worker κ Unit)}
    {T : Story κ} {s : Scene κ α} (hws : AllFinished ws) (hcalm : T.IsCalm deadline)
    (h : Plays ⟨.done value, ws, e⟩ T s) : s = ⟨.done value, ws, e⟩ := by
  rcases plays_cases h with ⟨-, rfl⟩ | ⟨ev, U, s₁, rfl, hstep, -⟩
  · rfl
  · obtain ⟨a, rfl⟩ := exists_main_of_step hws (List.forall_mem_cons.mp hcalm).1 hstep
    rcases hstep.main_cases with ⟨op, next, answer, -, hask, -⟩ | ⟨hnone, -⟩
    · cases hask
    · cases hnone

/-- From every engine, for every filter, time limit and catalog, and for all callbacks that keep to
their own group: take any story of a run in which the run and its own workers take their steps in
any order, and nobody asks for an abort, interrupts the run or lets its deadline pass. The story
cannot be told on for ever. It goes on with a step of the run or of a worker, or the run has given
its answer, which is put together from what each group comes to when it is run alone on the engine
on which the run was started. -/
theorem calm_run_refines_groups {ws : List (Worker κ Unit)} {T : Story κ}
    {s : Scene κ (Results × Answer)} (hb : Homely b)
    (h : Plays ⟨run b filter limit catalog results, ws, e⟩ T s)
    (hown : ∀ i a, Event.worker i a ∈ T → ws.length ≤ i)
    (hcalm : T.IsCalm (limit.map (e.clock + ·))) :
    Acc Scene.Next s ∧ (s.IsUnderWay ∨ ∃ results' answer, s.main = .done (results', answer) ∧
      ∃ solos, Refines b filter catalog e solos answer s.engine) := by
  refine ⟨acc_next s, ?_⟩
  have hquiet := h.hush (Nat.le_refl ws.length) hown
  have hidle : AllFinished (hushed ws.length ws) := by
    intro w hw
    rw [hushed, List.drop_length, List.append_nil] at hw
    exact List.eq_of_mem_replicate hw
  have hrun : (run b filter limit catalog results).bind .done =
      run b filter limit catalog results := Prog.bind_done _
  rw [Scene.hush, ← hrun] at hquiet
  rcases calmly_run hb results e _ _ _ _ _ hidle hquiet hcalm with
    hgoing | ⟨⟨results', answer⟩, e', vs, U, ⟨solos, hrefines⟩, hvs, hU, hlast⟩
  · exact .inl (isUnderWay_of_hush hgoing)
  · have hend := plays_finished hvs hU hlast
    have hmain : s.main = .done (results', answer) := congrArg Scene.main hend
    have hengine : s.engine = e' := congrArg Scene.engine hend
    exact .inr ⟨results', answer, hmain, solos, hengine ▸ hrefines⟩

end Whole

section Market

/-- The body of the first check ends with an error. -/
def breaking : Behaviour Unit where
  act _ call :=
    match call with
    | .body ⟨0, 0⟩ => .done (.error (.ofText "no answer"))
    | _ => .done (.ok ())
  excuse _ _ := .done none

theorem breaking_homely : Homely breaking where
  act _ call := by
    simp only [breaking]
    split <;> trivial
  excuse _ _ := trivial

/-- The failure of a check is felt in its own group only. -/
theorem calm_run_refines_groups_market :
    ∃ T s results report solos, Plays ⟨marketRun breaking, [], market.engine⟩ T s ∧
      T.IsCalm none ∧ s.main = .done (results, .ok report) ∧
      report.errors = ["group g check age function unexpected error"] ∧
      report.results.entries.map (fun entry => (entry.1, entry.2.state)) =
        [("age", .error), ("size", .skipped), ("weight", .passed)] ∧
      Refines breaking ⟨"!odd", .not (.label "odd")⟩ market.catalog market.engine solos
        (.ok report) s.engine := by
  have htold : told (Schedule.drive (marketRun breaking) [] market.engine).1 =
      some (["group g check age function unexpected error"],
        [("age", .error), ("size", .skipped), ("weight", .passed)]) := by decide +kernel
  have hcalm : (Schedule.story (marketRun breaking) [] market.engine).all
      (·.isCalm none) = true := by decide +kernel
  obtain ⟨results, report, hvalue, herrors, hstates⟩ := exists_told htold
  have hplays := Schedule.plays_story (marketRun breaking) [] market.engine hvalue
  obtain ⟨-, hgoing | ⟨results', answer, hmain, solos, hrefines⟩⟩ :=
    calm_run_refines_groups breaking_homely hplays (fun _ _ _ => Nat.zero_le _)
      (List.all_eq_true.mp hcalm)
  · obtain ⟨⟨op, next, hask⟩, -⟩ := hgoing
    cases hask
  · cases hmain
    exact ⟨_, _, results, report, solos, hplays, List.all_eq_true.mp hcalm, rfl, herrors, hstates,
      hrefines⟩

end Market

end Conformance.Run
