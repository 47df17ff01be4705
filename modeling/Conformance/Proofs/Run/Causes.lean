import Conformance.Proofs.Group.Candour
import Conformance.Proofs.Run.FailedChecks

/-!
Why a check stands as it does when a record is made of it. It stood so from the beginning, or a
verdict has put it in its state since. In a run that is not aborted every record is made after the
group of its check has been waited for up to its completion.
-/
namespace Conformance

variable {κ α : Type}

/-- The event brings a verdict that puts the check in the state. -/
def Event.PutsIn (r : CheckRef) (state : CheckState) (ev : Event κ) : Prop :=
  ∃ verdict, ev.verdictOn? r = some verdict ∧ verdict.PutsIn state

/-- A check that does not stand as passed did not do so before either, or somebody has put it in its
state since. -/
theorem Scene.Plays.exists_cause {s s' : Scene κ α} {T : Story κ} (h : Plays s T s')
    {r : CheckRef} {w : Standing} (hw : s'.engine.standing? r = some w)
    (hstate : w.state ≠ .passed) :
    (∃ v, s.engine.standing? r = some v ∧ v.state = w.state) ∨ ∃ ev ∈ T, ev.PutsIn r w.state := by
  induction h generalizing w with
  | start => exact .inl ⟨w, hw, rfl⟩
  | @step s₁ s₂ T ev _ hstep ih =>
    have hbefore (hsame : s₁.engine.standing? r = some w) :
        (∃ v, s.engine.standing? r = some v ∧ v.state = w.state) ∨
          ∃ ev' ∈ T ++ [ev], ev'.PutsIn r w.state := by
      refine (ih hsame hstate).imp_right ?_
      rintro ⟨ev', hev', hputs⟩
      exact ⟨ev', List.mem_append_left _ hev', hputs⟩
    rcases hstep.engine_cases with ⟨a, hev, -, hengine⟩ | ⟨-, inbox, clock, hengine⟩
    · rw [hengine] at hw
      rcases a.1.standing?_apply s₁.engine r with hafter | ⟨-, hnew⟩
      · rw [hafter] at hw
        obtain ⟨v, hv, rfl⟩ := Option.map_eq_some_iff.mp hw
        cases hverdict : a.1.verdictOn? r with
        | none =>
          rw [hverdict] at hbefore
          exact hbefore hv
        | some verdict =>
          rw [hverdict] at hbefore
          rcases v.take_cases verdict with hkept | hputs
          · exact hbefore (hv.trans (congrArg some hkept.symm))
          · refine .inr ⟨ev, List.mem_append_right _ List.mem_cons_self, verdict, ?_, _, hputs, rfl⟩
            rw [Event.verdictOn?, hev, Option.bind_some, hverdict]
      · rw [hnew] at hw
        cases hw
        exact absurd rfl hstate
    · rw [hengine] at hw
      exact hbefore hw

namespace Run

open Conformance.Group Scene

section Failing

/-- Somebody lets a check fail that does not stand failed at first. -/
theorem exists_failing {s s' : Scene κ α} {T : Story κ} (h : Plays s T s') {r : CheckRef}
    {w : Standing} (hw : s'.engine.standing? r = some w) (hstate : w.state = .failed)
    (hfirst : ∀ v, s.engine.standing? r = some v → v.state ≠ .failed) :
    ∃ ev ∈ T, ev.PutsIn r .failed := by
  rcases h.exists_cause hw (by rw [hstate]; exact nofun) with ⟨v, hv, hsame⟩ | hcause
  · exact absurd (hsame.trans hstate) (hfirst v hv)
  · rwa [hstate] at hcause

variable {s s' : Scene κ α} {T earlier later : Story κ} {i : Nat} {w : Standing}

theorem Sights.exists_failing {look : Member κ × Status} (hsights : Sights i T look earlier later)
    (h : Plays s T s') (hw : s'.engine.standing? look.1.1 = some w) (hstate : w.state = .failed)
    (hlooked : look.2.state ≠ .failed) : ∃ ev ∈ later, ev.PutsIn look.1.1 .failed := by
  rw [hsights.story_eq] at h
  obtain ⟨s₁, s₂, -, hsame, hlater, hstatus⟩ := exists_scenes_of_status rfl h
  refine Run.exists_failing hlater hw hstate fun v hv => ?_
  rw [hsame] at hv
  rw [← hstatus v hv]
  exact hlooked

/-- A check that is skipped does not stand failed right after that. -/
theorem state_ne_failed_of_skipped {r : CheckRef} {reason : String} {e : Engine κ} {v : Standing}
    (hv : ((Action.request (.judge r (.skipped reason))).apply e).2.standing? r = some v) :
    v.state ≠ .failed := by
  rcases (Action.request (.judge r (.skipped reason))).standing?_apply e r with hafter | ⟨-, hnew⟩
  · rw [hafter] at hv
    obtain ⟨v₀, -, rfl⟩ := Option.map_eq_some_iff.mp hv
    have hskipped : v₀.after ((Action.request (.judge r (.skipped reason)) :
        Action κ).verdictOn? r) = v₀.skip reason := by
      rw [Action.verdictOn?, if_pos rfl]
      exact v₀.take_skipped reason
    rw [hskipped, Standing.skip]
    split
    · rename_i hsettled
      rcases hsettled with h | h <;> rw [h] <;> decide
    · simp
  · rw [hnew] at hv
    cases hv
    decide

/-- A check that a worker does not take up, because the check was not there when the worker read the
checks of the group or because the filter does not select it, fails after that. -/
theorem exists_failing_of_unselected {filter : Label.Filter} {m : Member κ}
    {checks : List (Check κ)} (h : Plays s T s')
    (hT : T = earlier ++ .worker i ⟨.request (.checks m.1.group), checks⟩ :: later)
    (hm : m ∉ selected filter (members m.1.group checks))
    (hskips : ∀ n ∈ members m.1.group checks, n ∉ selected filter (members m.1.group checks) →
      Event.worker i ⟨.request (.judge n.1 (.skipped notMatching)), ()⟩ ∈ later)
    (hthere : s'.engine.definition? m.1 = some m.2) (hw : s'.engine.standing? m.1 = some w)
    (hstate : w.state = .failed) : ∃ ev ∈ later, ev.PutsIn m.1 .failed := by
  rw [hT] at h
  by_cases hmember : m ∈ members m.1.group checks
  · obtain ⟨later₁, later₂, rfl⟩ := List.append_of_mem (hskips m hmember hm)
    rw [← List.cons_append, ← List.append_assoc] at h
    obtain ⟨s₁, s₂, -, hstep, hlater⟩ := h.exists_step
    have hskipped : ∀ v, s₂.engine.standing? m.1 = some v → v.state ≠ .failed := by
      rcases hstep.engine_cases with ⟨a, ha, -, hengine⟩ | ⟨hnone, -⟩
      · cases ha
        rw [hengine]
        exact fun v hv => state_ne_failed_of_skipped hv
      · cases hnone
    obtain ⟨ev, hev, hputs⟩ := exists_failing hlater hw hstate hskipped
    exact ⟨ev, by simp [hev], hputs⟩
  · obtain ⟨s₁, s₂, -, hstep, hlater⟩ := h.exists_step
    refine exists_failing hlater hw hstate fun v hv => absurd ?_ hmember
    obtain ⟨c, hc⟩ := exists_standing_iff.mp ⟨v, hv⟩
    obtain rfl := Option.some.inj ((hlater.grows m.1 c hc).symm.trans hthere)
    rcases hstep.engine_cases with ⟨a, ha, hanswer, hengine⟩ | ⟨hnone, -⟩
    · cases ha
      have hsame : s₂.engine = s₁.engine := hengine
      rw [hsame] at hc
      have hchecks : checks = (s₁.engine.checksOf m.1.group).map Registered.check := hanswer
      rw [hchecks]
      exact mem_membersOf.mpr ⟨rfl, hc⟩
    · cases hnone

end Failing

section Making

/-- The record of the entry was made of this check, as it stood when this part of the story had been
told. -/
structure IsMadeOf (T : Story κ) (entry : String × Record) (m : Member κ) (U : Story κ) : Prop where
  id_eq : m.2.id = entry.1
  seen : ∃ status V, T = U ++ .main ⟨.act (.request (.status m.1)), status⟩ :: V ∧
    status.state = entry.2.state

theorem GroupTrail.exists_accepted {p : Plan κ} {g : Nat} {s s' : Progress} {t : MainTrail κ}
    (h : GroupTrail p g s t s') (hnone : s'.abort = none) :
    ∃ deadline outcome, ⟨.await g deadline, .done outcome⟩ ∈ t := by
  cases h with
  | labelled => cases hnone
  | @done time token outcome => exact ⟨p.deadline, outcome, by simp⟩

variable {o : Orchestrator κ} {b : Behaviour κ} {filter : Label.Filter} {limit : Option Nat}
  {results' : Results} {report : RunReport} {T : Story κ} {s' : Scene κ (Results × Answer)}
  {ws : List (Worker κ Unit)}

/-- An entry from before the run has the id of a check that the run reads of. -/
theorem exists_group_of_known (ho : Lived o ws)
    (h : Plays ⟨run b filter limit o.catalog o.results, ws, o.engine⟩ T s')
    {entry : String × Record} (hentry : entry ∈ o.results.entries) :
    ∃ g, (∀ count, ⟨.groupCount, count⟩ ∈ T.mainTrail → g < count) ∧
      ¬LacksId g entry.1 T.mainTrail := by
  obtain ⟨r, c, hthere, hid⟩ := ho.known entry hentry
  refine ⟨r.group, fun count hcount => ?_, ?_⟩
  · rw [h.groupCount (Story.mem_of_mainTrail hcount)]
    exact Engine.lt_of_definition? hthere
  · rintro ⟨checks, hread, hothers⟩
    have hmem := mem_members_of_read h (Story.mem_of_mainTrail hread) rfl hthere rfl
    exact hothers _ hmem hid

/-- In a run that is not aborted a record is made of a check when the group of the check has been
waited for up to its completion. -/
theorem exists_making (ho : Lived o ws)
    (h : Plays ⟨run b filter limit o.catalog o.results, ws, o.engine⟩ T s')
    (hdone : s'.main = .done (results', .ok report)) (hcalm : report.abortReason = none)
    {entry : String × Record} (hentry : entry ∈ report.results.entries) :
    ∃ m U V s₁ s₂ w deadline outcome, IsMadeOf T entry m (U ++ V) ∧
      Plays ⟨run b filter limit o.catalog o.results, ws, o.engine⟩ U s₁ ∧ Plays s₁ V s₂ ∧
      s₂.engine.definition? m.1 = some m.2 ∧ s₂.engine.standing? m.1 = some w ∧
      w.state = entry.2.state ∧ StopsNobody U.mainTrail ∧
      Event.main ⟨.await m.1.group deadline, .done outcome⟩ ∈ U := by
  have hgoes := h.main_reaches
  rw [hdone] at hgoes
  obtain ⟨p, st, st', rfl, rfl, -, habort, -, ⟨row⟩⟩ :=
    exists_row_of_run hgoes.goes_of_done (fun _ => exists_group_of_known ho h) hentry
  have hended : row.ended.abort = none := row.within.abort (habort.symm.trans hcalm)
  -- The story, cut where the group has ended, and where the check is seen for its record.
  obtain ⟨checks, m, status, u, hu, hm, hid, hseen, hstate⟩ := row.isRecordOf
  obtain ⟨u₁, u₂, rfl⟩ := List.append_of_mem hseen
  have htrail : T.mainTrail = (row.earlier ++ row.trail) ++
      ((⟨.act (.request (.checks row.group)), checks⟩ :: u₁) ++
        ⟨.act (.request (.status m.1)), status⟩ :: (u₂ ++ row.later)) := by
    refine row.trail_eq.trans ?_
    rw [hu]
    simp only [List.append_assoc, List.cons_append]
  obtain ⟨U, rest, rfl, hU, hrest⟩ := Story.exists_split_of_mainTrail htrail
  obtain ⟨V, W, rfl, hV, -⟩ := Story.exists_event_of_mainTrail hrest
  rw [← List.append_assoc] at h
  obtain ⟨s₂, -, hUV, -, -, hstatus⟩ := exists_scenes_of_status rfl h
  obtain ⟨s₁, hbefore, hafter⟩ := hUV.split
  have hread : Event.main ⟨.act (.request (.checks row.group)), checks⟩ ∈ U ++ V :=
    List.mem_append_right _ (Story.mem_of_mainTrail (hV ▸ List.mem_cons_self))
  obtain ⟨hgroup, hthere⟩ := mem_membersOf.mp (mem_membersOf_of_read hUV hread rfl hm)
  obtain ⟨w, hw⟩ := exists_standing_iff.mpr ⟨m.2, hthere⟩
  obtain ⟨deadline, outcome, haccepted⟩ := row.groupTrail.exists_accepted hended
  refine ⟨m, U, V, s₁, s₂, w, deadline, outcome, ⟨hid, status, W, ?_, hstate⟩, hbefore, hafter,
    hthere, hw, ?_, ?_, ?_⟩
  · rw [List.append_assoc]
  · rw [← hstate, ← hstatus w hw]
    rfl
  · rw [hU]
    exact (row.unbroken (row.groupTrail.within.abort hended)).2.append
      (row.groupTrail.unbroken hended).1
  · rw [hgroup]
    exact Story.mem_of_mainTrail (hU ▸ List.mem_append_right _ haccepted)

end Making

end Run

end Conformance
