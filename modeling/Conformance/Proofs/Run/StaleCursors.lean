import Conformance.Proofs.Run.Finality

/-!
What an abort makes of the groups after it. A check of such a group is labelled by the cursor of the
group. The group is not run, so its cursor is where the last run of the group has left it. An abort
skips the checks beyond this cursor and aborts the one at it, but the checks before it keep what an
earlier run has made of them. So the checks of all later groups are skipped in a first run, but not
in every run.
-/
namespace Conformance.Run

open Conformance.Group Scene

variable {κ α : Type}

section Silence

/-- Nobody but the thread that runs all groups judges the check. -/
def OnlyMainJudges (r : CheckRef) (T : Story κ) : Prop :=
  ∀ ev ∈ T, ev.main? = none → ev.verdictOn? r = none

theorem OnlyMainJudges.verdicts_eq {r : CheckRef} {T : Story κ} (h : OnlyMainJudges r T) :
    T.filterMap (Event.verdictOn? r) = verdictsOn r T.mainTrail := by
  rw [verdictsOn, Story.mainTrail, List.filterMap_filterMap]
  refine List.filterMap_congr fun ev hev => ?_
  cases ev with
  | main a =>
    obtain ⟨op, answer⟩ := a
    cases op <;> rfl
  | worker => exact h _ hev rfl
  | outside => exact h _ hev rfl

variable {s s' : Scene κ α} {T : Story κ}

/-- A cursor that nobody moves is read as it was at the beginning. -/
theorem cursor_of_read (h : Plays s T s') {g : Nat} (hg : (s.engine.group? g).isSome)
    (hspares : ∀ a ∈ T.actions, a.1.SparesCursor g) {cursor : Option Nat}
    (hread : Event.main ⟨.act (.request (.cursor g)), cursor⟩ ∈ T) :
    cursor = s.engine.cursorOf g := by
  obtain ⟨U, V, rfl⟩ := List.append_of_mem hread
  obtain ⟨s₁, s₂, hU, hstep, -⟩ := h.exists_step
  have hstays (t : Trail κ) (ht : ∀ a ∈ t, a.1.SparesCursor g) (cursor : Option Nat) :
      t.foldl (fun cursor a => a.1.cursorBy g cursor) cursor = cursor := by
    induction t with
    | nil => rfl
    | cons a t ih =>
      obtain ⟨ha, ht⟩ := List.forall_mem_cons.mp ht
      rw [List.foldl_cons, ha cursor, ih ht]
  have hcursor : cursor = s₁.engine.cursorOf g := by
    rcases hstep.engine_cases with ⟨a, ha, hanswer, -⟩ | ⟨hnone, -⟩
    · cases ha
      exact hanswer
    · cases hnone
  rw [hcursor, hU.cursorOf hg, hstays]
  intro a ha
  rw [Story.actions_append] at hspares
  exact hspares a (List.mem_append_left _ ha)

end Silence

section Whole

variable {b : Behaviour κ} {filter : Label.Filter} {limit : Option Nat} {catalog : Catalog}
  {results results' : Results} {s' : Scene κ (Results × Answer)} {T : Story κ}
  {ws : List (Worker κ Unit)} {e : Engine κ} {k g : Nat} {reason : String}

/-- In a run that was aborted at a group, the cursors of the later groups are left alone. -/
theorem sparesCursor_of_abort (h : Plays ⟨run b filter limit catalog results, ws, e⟩ T s')
    (habort : abortOf T.mainTrail = some (k, reason)) (hlater : k < g)
    (hws : ∀ w ∈ ws, w.Only (Action.SparesCursor g)) : ∀ a ∈ T.actions, a.1.SparesCursor g := by
  intro a ha
  obtain ⟨ev, hev, haction⟩ := List.mem_filterMap.mp ha
  cases ev with
  | main c =>
    have hmainly := (mainly_run b filter limit catalog results).reaches h.main_reaches _
      (Story.mem_mainTrail hev)
    obtain ⟨op, answer⟩ := c
    cases op with
    | act op =>
      cases haction
      cases op with
      | request | now | newToken | setToken | groupName => exact fun _ => rfl
      | _ => exact absurd hmainly id
    | _ => cases haction
  | worker i c =>
    cases haction
    obtain ⟨w, q, hw, hreaches⟩ := h.reaches_of_mem hev
    refine Prog.Only.reaches ?_ hreaches a (Story.mem_workerTrail hev)
    rcases Nat.lt_or_ge i ws.length with hlt | hge
    · rw [List.getElem?_append_left hlt] at hw
      exact hws w (List.mem_of_getElem? hw)
    · obtain ⟨number, g', token, hg', hworker⟩ := worker_of_plays h hge hev
      cases hw.symm.trans hworker
      have hle := started_le_of_reaches h.main_reaches habort hg'
      exact sparesCursor_worker b number (by omega) filter token
  | outside c =>
    cases haction
    exact fun _ => rfl

/-- From every engine, whatever ran on it before, for every filter, time limit and behaviour, and in
whatever order everybody takes their steps: take a selected check of a group after the one at which
the run was aborted, which nobody judges on his own account. Its rank among the selected checks of
the group and the cursor of the group decide what the run makes of it, and this cursor is the one
from before the run, unless a worker that is left over from an earlier run moves it. The check is
skipped for the abort, in error or aborted when the run has given its report, exactly if it was so
before the run, or if the cursor has not come past it. -/
theorem later_checks_by_old_cursor (h : Plays ⟨run b filter limit catalog results, ws, e⟩ T s')
    {report : RunReport} (hdone : s'.main = .done (results', .ok report))
    (habort : abortOf T.mainTrail = some (k, reason)) (hlater : k < g) {i : Nat} {m : Member κ}
    (hm : (selected filter (membersOf e g))[i]? = some m) {v : Standing}
    (hv : e.standing? m.1 = some v) (hsilent : OnlyMainJudges m.1 T) :
    ∃ cursor, Event.main ⟨.act (.request (.cursor g)), cursor⟩ ∈ T ∧
      ((∀ w ∈ ws, w.Only (Action.SparesCursor g)) → cursor = e.cursorOf g) ∧
      ∃ w, s'.engine.standing? m.1 = some w ∧ w = v.after (labelAt reason cursor i) ∧
        (w = ⟨.skipped, reason⟩ ∨ w.IsSettled ↔
          v = ⟨.skipped, reason⟩ ∨ v.IsSettled ∨ ∀ place, cursor = some place → place ≤ i) := by
  have hmember := (List.mem_filter.mp (List.mem_of_getElem? hm)).1
  obtain ⟨hgroup, hthere⟩ := mem_membersOf.mp hmember
  have hgoes := h.main_reaches
  rw [hdone] at hgoes
  obtain ⟨count, hcount, honce⟩ :=
    ((abort_of_run hgoes.goes_of_done).2 k reason habort).2 report rfl
  obtain rfl := h.groupCount (Story.mem_of_mainTrail hcount)
  obtain ⟨cursor, checks, hcursor, hchecks, hverdicts⟩ :=
    (honce g (hgroup ▸ Engine.lt_of_definition? hthere) hlater).exists_reads
  obtain ⟨e₁, hgrows, -, rfl⟩ :=
    exists_moment_of_read h (Story.mem_of_mainTrail hchecks) rfl
  have hlabels : verdictsOn m.1 T.mainTrail = (labelAt reason cursor i).toList :=
    (hverdicts m.1 hgroup).trans
      (labelsOn_selected (selected_of_isPrefix (isPrefix_checks hgrows g) hm) reason cursor)
  refine ⟨cursor, Story.mem_of_mainTrail hcursor, fun hws => ?_, _, h.standing? hv, ?_, ?_⟩
  · exact cursor_of_read h (isSome_group?_of_mem hmember)
      (sparesCursor_of_abort h habort hlater hws) (Story.mem_of_mainTrail hcursor)
  all_goals
    have hafter : (T.filterMap (Event.verdictOn? m.1)).foldl Standing.take v =
        v.after (labelAt reason cursor i) := by
      rw [hsilent.verdicts_eq, hlabels]
      cases labelAt reason cursor i <;> rfl
  · exact hafter
  · rw [hafter]
    exact skipped_after_labelAt_iff v reason cursor i

end Whole

section Growth

theorem grows_finish (workers : List (Worker κ Unit)) (e : Engine κ) :
    e.Grows (Schedule.finish workers e) := by
  induction workers generalizing e with
  | nil => exact grows_isEffect.refl e
  | cons w rest ih =>
    have hfirst : e.Grows (w.exec Action.apply e).2 := grows_worker rfl
    exact grows_isEffect.trans hfirst (ih _)

/-- No run takes a check away, even if it fails. -/
theorem grows_run (o : Orchestrator κ) (b : Behaviour κ) (filter : Label.Filter)
    (limit : Option Nat) : o.engine.Grows (o.run b filter limit).2.engine := by
  have hstart : o.engine.Grows (o.start b filter limit).2.2.engine := by
    unfold Orchestrator.start
    split <;> exact grows_drive ‹_›
  exact grows_isEffect.trans hstart (grows_finish _ _)

end Growth

section Market

/-- The market after a run in which all checks have passed. -/
def marketLater : Orchestrator Unit := (market.run calm notOdd none).2

/-- The first check asks for an abort of the second run of the market. -/
def laterRun : Main Unit (Results × Answer) :=
  run fleeing notOdd none marketLater.catalog marketLater.results

def judgesNot (r : CheckRef) (ev : Event Unit) : Bool :=
  ev.main?.isSome || (ev.verdictOn? r).isNone

theorem onlyMainJudges_of_all {r : CheckRef} {T : Story Unit} (h : T.all (judgesNot r) = true) :
    OnlyMainJudges r T := by
  intro ev hev hmain
  have hnot := List.all_eq_true.mp h ev hev
  rw [judgesNot, hmain] at hnot
  simpa using hnot

/-- The check of the second group, which is not run again, is passed still. -/
theorem later_checks_by_old_cursor_market :
    ∃ T s results report, Plays ⟨laterRun, [], marketLater.engine⟩ T s ∧
      s.main = .done (results, .ok report) ∧
      abortOf T.mainTrail = some (0, "age called abort: gone") ∧
      s.engine.standing? ⟨1, 0⟩ = some ⟨.passed, ""⟩ := by
  have htold : told (Schedule.drive laterRun [] marketLater.engine).1 =
      some ([], [("age", .aborted), ("size", .skipped), ("weight", .passed)]) := by
    decide +kernel
  have habort : abortOf (Schedule.story laterRun [] marketLater.engine).mainTrail =
      some (0, "age called abort: gone") := by decide +kernel
  have hsilent : (Schedule.story laterRun [] marketLater.engine).all (judgesNot ⟨1, 0⟩) = true := by
    decide +kernel
  have hcursor : marketLater.engine.cursorOf 1 = some 1 := by decide +kernel
  have hpassed : marketLater.engine.standing? ⟨1, 0⟩ = some ⟨.passed, ""⟩ := by decide +kernel
  have hm : (selected notOdd (membersOf marketLater.engine 1))[0]? =
      some (⟨1, 0⟩, plainCheck "weight" "common") :=
    selected_of_isPrefix (isPrefix_checks (grows_run market calm notOdd none) 1) rfl
  obtain ⟨results, report, hvalue, -, -⟩ := exists_told htold
  have hplays := Schedule.plays_story laterRun [] marketLater.engine hvalue
  obtain ⟨cursor, -, hold, w, hw, rfl, -⟩ := later_checks_by_old_cursor hplays rfl habort
    Nat.zero_lt_one hm hpassed (onlyMainJudges_of_all hsilent)
  obtain rfl := (hold (List.forall_mem_nil _)).trans hcursor
  exact ⟨_, _, results, report, hplays, rfl, habort, hw⟩

end Market

end Conformance.Run
