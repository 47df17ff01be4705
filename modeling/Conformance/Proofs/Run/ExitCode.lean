import Conformance.Proofs.Run.Causes
import Conformance.Proofs.Run.Hiring
import Mathlib.Algebra.Order.BigOperators.Group.List
import Mathlib.Algebra.Order.Group.Nat

/-!
What the exit code of a run tells about the records in its report. It is made of the errors of the
groups, of an abort, and of the number of failed checks, and not of the records themselves. So it
hides a check that is in error or aborted without an error of its group: because it was so before
the run, or by a verdict of which the run does not hear. And it hides a failed check whose worker
did not look at it when it had failed.
-/
namespace Conformance.Run

open Conformance.Group Scene

variable {κ : Type}

section Codes

variable {report : RunReport}

/-- An exit code that tells of no error is that of a run without an error and without an abort. -/
theorem clear_of_exitCode (h : report.exitCode ≤ 1) :
    report.errors = [] ∧ report.abortReason = none := by
  unfold RunReport.exitCode at h
  split at h
  · omega
  · rename_i hgood
    simpa [RunReport.isAborted] using hgood

theorem failedChecks_of_exitCode (h : report.exitCode = 0) : report.failedChecks = 0 := by
  unfold RunReport.exitCode at h
  split at h
  · omega
  · split at h
    · omega
    · rename_i hnone
      rw [UInt64.lt_iff_toNat_lt] at hnone
      exact UInt64.toNat_inj.mp (by simpa using hnone)

theorem outcomeOf_errors {name : String} {x : Except Panic Outcome}
    (h : (outcomeOf name x).errors = []) : ∃ outcome, x = .ok outcome := by
  cases x with
  | ok outcome => exact ⟨outcome, rfl⟩
  | error panic => cases h

end Codes

section Outcomes

variable {p : Plan κ} {gs : List Nat} {s s' : Progress} {t : MainTrail κ}
  {missing : Option Catalog.MissingEntry} {g : Nat} {deadline : Option Nat} {outcome : Outcome}

/-- The outcome of a group that is waited for up to its completion goes into the report. -/
theorem accepted_of_runGroups (h : (runGroups p s gs).Goes t (.ok (s', missing)))
    (haccepted : ⟨.await g deadline, .done outcome⟩ ∈ t) :
    outcome.errors ⊆ s'.errors ∧ outcome.failed ≤ s'.failed := by
  induction gs generalizing s t with
  | nil =>
    rw [(Prog.goes_done h).1] at haccepted
    cases haccepted
  | cons g' gs ih =>
    obtain ⟨t₁, t₂, t₃, s₁, results, first, rfl, hvisit, hrecord, hend⟩ := goes_runGroups_cons h
    have hwithin : s₁.Within s' := by
      rcases hend with ⟨-, -, rfl, -⟩ | ⟨-, hlater⟩
      · exact .of_recorded (.refl _)
      · exact (within_of_runGroups hlater).of_recorded
    have hlabels {reason : String} {cursor : Option Nat} {checks : List (Check κ)} :
        ⟨.await g deadline, .done outcome⟩ ∉ labelTrail p.filter g' reason cursor checks := by
      simp [labelTrail]
    rcases List.mem_append.mp haccepted with hturn | hrest
    · cases hvisit with
      | left => simp [hlabels] at hturn
      | expired => simp [hlabels] at hturn
      | interrupted => simp [hlabels] at hturn
      | @completed time token own hnone =>
        obtain ⟨-, rfl⟩ : (g = g' ∧ deadline = p.deadline) ∧ outcome = own := by
          simpa using hturn
        exact ⟨List.Subset.trans (List.subset_append_right _ _) hwithin.errors,
          (Nat.le_add_left _ _).trans hwithin.failed⟩
    · rcases List.mem_append.mp hrest with hrecorded | hlater
      · obtain ⟨u, -, rfl⟩ := goes_ofCallback hrecord
        obtain ⟨a, -, ha⟩ := List.mem_map.mp hrecorded
        cases ha
      · rcases hend with ⟨-, -, -, rfl⟩ | ⟨-, hothers⟩
        · cases hlater
        · exact ih hothers hlater

end Outcomes

section Counts

variable {b : Behaviour κ} {filter : Label.Filter} {limit : Option Nat} {catalog : Catalog}
  {results results' : Results} {report : RunReport} {T : Story κ}
  {s' : Scene κ (Results × Answer)} {ws : List (Worker κ Unit)} {e : Engine κ}

/-- A run counts no more failed checks than there are checks, and reports whatever the groups have
come to that it has waited for up to their completion. -/
theorem exists_failed (h : Plays ⟨run b filter limit catalog results, ws, e⟩ T s')
    (hws : ∀ w ∈ ws, Bygone e.inbox.run w) (hdone : s'.main = .done (results', .ok report)) :
    ∃ failed, report.failedChecks = .ofNat failed ∧ failed ≤ s'.engine.size ∧
      ∀ {g : Nat} {deadline : Option Nat} {outcome : Outcome},
        Event.main ⟨.await g deadline, .done outcome⟩ ∈ T →
        outcome.failed ≤ failed ∧ ∀ error ∈ outcome.errors, error.text ∈ report.errors := by
  have hgoes := h.main_reaches
  rw [hdone] at hgoes
  obtain ⟨number, began, count, t₁, t₂, s, missing, htrail, hgroups, -, -, -, -, hended⟩ :=
    goes_run hgoes.goes_of_done
  obtain ⟨rfl, p, t₃, rfl, hreport⟩ := hended report rfl
  obtain ⟨gain, hsum, hgains⟩ := exists_gains List.nodup_range hgroups
  obtain ⟨reads, counted, hreads, -, -⟩ := exists_reads_of_report List.nodup_range hreport
  obtain rfl : count = e.groups.length :=
    h.groupCount (Story.mem_of_mainTrail (htrail ▸ by simp))
  refine ⟨s.failed, failedChecks_of_report hreport, ?_, fun {g deadline outcome} haccepted => ?_⟩
  · have hgain : ∀ g ∈ List.range e.groups.length, gain g ≤ (membersOf s'.engine g).length := by
      intro g hg
      obtain ⟨s₁, u, s₂, hvisit, hu, hgain⟩ := hgains g hg
      have hread := Story.mem_of_mainTrail (T := T) (htrail ▸ List.mem_append_right _
        (List.mem_append_right _ (List.mem_append_left _ (hreads g hg).1)))
      have hlast := (isPrefix_members_of_read h hread rfl).2.length_le
      rw [← List.append_assoc] at htrail
      obtain ⟨U, V, rfl, hU, hV⟩ := Story.exists_split_of_mainTrail htrail
      obtain ⟨looks, hcount, -, hlooks, -⟩ := exists_looks_of_visit h hws hU hvisit
        (hU ▸ hu.trans (List.suffix_append _ _).isInfix) hgain
        (hV ▸ List.mem_append_left _ (hreads g hg).1)
      have hlength := hlooks.length_le
      rw [List.length_map] at hlength
      rw [hcount]
      exact List.countP_le_length.trans (hlength.trans ((List.length_filter_le _ _).trans hlast))
    rw [hsum, Nat.zero_add, ← length_members, h.length_groups, List.length_flatMap]
    exact List.sum_le_sum hgain
  · have hmem := Story.mem_mainTrail haccepted
    rw [htrail] at hmem
    have hlast : ⟨.await g deadline, .done outcome⟩ ∉ t₃ := fun hasked =>
      absurd ((questions_report p s began _).goes hreport _ hasked) id
    have hgroup : ⟨.await g deadline, .done outcome⟩ ∈ t₁ := by simpa [hlast] using hmem
    obtain ⟨herrors, hfailed⟩ := accepted_of_runGroups hgroups hgroup
    refine ⟨hfailed, fun error herror => ?_⟩
    rw [(goes_report hreport).2.1]
    exact List.mem_map_of_mem (herrors herror)

variable {g : Nat} {deadline : Option Nat} {outcome : Outcome}

theorem errors_of_clear (h : Plays ⟨run b filter limit catalog results, ws, e⟩ T s')
    (hws : ∀ w ∈ ws, Bygone e.inbox.run w) (hdone : s'.main = .done (results', .ok report))
    (hclear : report.errors = [])
    (haccepted : Event.main ⟨.await g deadline, .done outcome⟩ ∈ T) : outcome.errors = [] := by
  obtain ⟨failed, -, -, hall⟩ := exists_failed h hws hdone
  refine List.eq_nil_iff_forall_not_mem.mpr fun error herror => ?_
  have hreported := (hall haccepted).2 error herror
  rw [hclear] at hreported
  cases hreported

theorem failed_of_clear (h : Plays ⟨run b filter limit catalog results, ws, e⟩ T s')
    (hws : ∀ w ∈ ws, Bygone e.inbox.run w) (hdone : s'.main = .done (results', .ok report))
    (hnone : report.failedChecks = 0) (hsize : s'.engine.size < UInt64.size)
    (haccepted : Event.main ⟨.await g deadline, .done outcome⟩ ∈ T) : outcome.failed = 0 := by
  obtain ⟨failed, hcount, hle, hall⟩ := exists_failed h hws hdone
  have hzero : failed = 0 := by
    have hsmall := UInt64.toNat_ofNat_of_lt' (Nat.lt_of_le_of_lt hle hsize)
    rw [← hcount, hnone] at hsmall
    exact hsmall.symm
  exact Nat.le_zero.mp (hzero ▸ (hall haccepted).1)

end Counts

section Unheard

/-- The run hears nothing of what comes of the event: it is one of a worker that is left over, or
from outside, or a worker of the run has no error to hand back on account of it. -/
inductive IsUnheard (b : Behaviour κ) (first : Nat) (T : Story κ) : Event κ → Prop
  | leftover {i : Nat} {a : Prog.Exchange (@Action.Resp κ)} (hi : i < first) :
      IsUnheard b first T (.worker i a)
  | outside (a : Prog.Exchange (@Request.Resp κ)) : IsUnheard b first T (.outside a)
  | unnoticed {i : Nat} {a : Prog.Exchange (@Action.Resp κ)} (hi : first ≤ i)
      (h : IsUnnoticed b (T.workerTrail i) a) : IsUnheard b first T (.worker i a)

/-- The check is in the state though the run has not heard of it: it was so before the run, or an
event has put it there of which the run hears nothing. -/
inductive IsHushed (b : Behaviour κ) (e : Engine κ) (first : Nat) (T U : Story κ) (r : CheckRef)
    (state : CheckState) : Prop
  | before {v : Standing} (hv : e.standing? r = some v) (hstate : v.state = state)
  | unheard {ev : Event κ} (hev : ev ∈ U) (hputs : ev.PutsIn r state) (h : IsUnheard b first T ev)

variable {b : Behaviour κ} {filter : Label.Filter} {limit : Option Nat} {catalog : Catalog}
  {results results' : Results} {report : RunReport} {T : Story κ}
  {s' : Scene κ (Results × Answer)} {ws : List (Worker κ Unit)} {e : Engine κ}

/-- The thread that runs all groups judges no check in a run that is not aborted. -/
theorem sparesGroup_of_run (h : Plays ⟨run b filter limit catalog results, ws, e⟩ T s')
    (hdone : s'.main = .done (results', .ok report)) (hcalm : report.abortReason = none) (g : Nat) :
    SparesGroup g T.mainTrail := by
  have hgoes := h.main_reaches
  rw [hdone] at hgoes
  obtain ⟨number, began, count, t₁, t₂, s, missing, htrail, hgroups, -, -, -, hspares, hended⟩ :=
    goes_run hgoes.goes_of_done
  obtain ⟨rfl, p, t₃, -, hreport⟩ := hended report rfl
  have hgoing : s.abort = none := (goes_report hreport).2.2.symm.trans hcalm
  rw [htrail]
  refine SparesGroup.append (fun _ _ => rfl) (SparesGroup.append ?_ (hspares g))
  exact (unbroken_of_runGroups hgroups hgoing).2 g

/-- Of whatever settles a check the run hears, unless it is one of these events. -/
theorem isUnheard_of_putsIn (h : Plays ⟨run b filter limit catalog results, ws, e⟩ T s')
    (hws : ∀ w ∈ ws, Bygone e.inbox.run w) (hdone : s'.main = .done (results', .ok report))
    (hclear : report.errors = [] ∧ report.abortReason = none) {ev : Event κ} (hev : ev ∈ T)
    {r : CheckRef} {state : CheckState} (hstate : state.IsSettled) (hputs : ev.PutsIn r state) :
    IsUnheard b ws.length T ev := by
  obtain ⟨verdict, hverdict, hstands⟩ := hputs
  cases ev with
  | outside a => exact .outside a
  | main a =>
    have hnone := sparesGroup_of_run h hdone hclear.2 r.group r rfl
    have hjudged := List.filterMap_eq_nil_iff.mp hnone a (Story.mem_mainTrail hev)
    obtain ⟨op, answer⟩ := a
    cases op with
    | act op => cases hverdict.symm.trans hjudged
    | _ => cases hverdict
  | worker i a =>
    by_cases hi : i < ws.length
    · exact .leftover hi
    obtain ⟨g, rfl⟩ := Nat.exists_eq_add_of_le (Nat.le_of_not_lt hi)
    obtain ⟨hlength, number, t, token, hattached, hturns⟩ := spawned_of_run h hdone hclear.2
    obtain ⟨w, q, hw, -⟩ := h.reaches_of_mem hev
    rw [List.getElem?_append_right (Nat.le_add_right _ _), Nat.add_sub_cancel_left] at hw
    obtain ⟨-, -, deadline, outcome, haccepted⟩ :=
      hturns g (hlength ▸ (List.getElem?_eq_some_iff.mp hw).1)
    obtain ⟨target, name, u, x, rfl, htrail, hrun⟩ := goes_of_completion h hws hattached
      (fun j hj => (hturns j (hlength ▸ hj)).1) haccepted
    have herrors := errors_of_clear h hws hdone hclear.1 haccepted
    obtain ⟨outcome, rfl⟩ := outcomeOf_errors herrors
    -- The worker has run its whole group without an error.
    have hsettles : a.1.Settles := ⟨r, state, hstate, verdict, hverdict, hstands⟩
    have ha := Story.mem_workerTrail hev
    rw [htrail] at ha
    rcases List.mem_cons.mp ha with rfl | ha
    · exact absurd hsettles (Action.not_settles_of_verdictOn? fun _ => rfl)
    rcases List.mem_append.mp ha with ha | ha
    · refine .unnoticed (Nat.le_add_right _ _) ?_
      exact (discreet_run hrun herrors a ha hsettles).mono (htrail ▸ ⟨[_], [_], rfl⟩)
    · rw [List.mem_singleton.mp ha] at hsettles
      exact absurd hsettles (Action.not_settles_of_verdictOn? fun _ => rfl)

end Unheard

section Uncounted

/-- Nobody counts a check that stands failed in the end: a worker of its group had looked at it
before it failed, or did not take it up and it failed after that, or found its stop token set,
because somebody had asked for a stop. -/
inductive IsUncounted (filter : Label.Filter) (first : Nat) (T : Story κ) (m : Member κ) : Prop
  | late {i : Nat} {status : Status} {earlier later : Story κ} {ev : Event κ} (hi : first ≤ i)
      (hsights : Sights i T (m, status) earlier later) (hstatus : status.state ≠ .failed)
      (hev : ev ∈ later) (hputs : ev.PutsIn m.1 .failed)
  | unlisted {i : Nat} {checks : List (Check κ)} {earlier later : Story κ} {ev : Event κ}
      (hi : first ≤ i)
      (hT : T = earlier ++ .worker i ⟨.request (.checks m.1.group), checks⟩ :: later)
      (hm : m ∉ selected filter (members m.1.group checks)) (hev : ev ∈ later)
      (hputs : ev.PutsIn m.1 .failed)
  | stopped {i token : Nat} {checks : List (Check κ)} (hi : first ≤ i)
      (hread : Event.worker i ⟨.request (.checks m.1.group), checks⟩ ∈ T)
      (hseen : Event.worker i ⟨.stopped token, true⟩ ∈ T) (hasked : StopAsked T)

end Uncounted

section Whole

variable {o : Orchestrator κ} {b : Behaviour κ} {filter : Label.Filter} {limit : Option Nat}
  {catalog : Catalog} {results results' : Results} {report : RunReport} {T U V : Story κ}
  {s' : Scene κ (Results × Answer)} {ws : List (Worker κ Unit)} {e : Engine κ}

theorem exists_first_of_main {a first : Prog.Exchange (@Move.Resp κ)} {t : MainTrail κ}
    (ha : Event.main a ∈ U) (h : Story.mainTrail (U ++ V) = first :: t) :
    ∃ t', U.mainTrail = first :: t' := by
  have hmem := Story.mem_mainTrail ha
  rw [Story.mainTrail, List.filterMap_append] at h
  rcases List.append_eq_cons_iff.mp h with ⟨hnone, -⟩ | ⟨t', hfirst, -⟩
  · rw [Story.mainTrail, hnone] at hmem
    cases hmem
  · exact ⟨t', hfirst⟩

/-- The worker of a group that has come to an outcome without an error and without a failed check
has not counted those checks of the group that stand failed later on. -/
theorem isUncounted_of_failed {s₁ s₂ : Scene κ (Results × Answer)} {number : Nat}
    {t : MainTrail κ} {token : Nat → Nat} {m : Member κ} {deadline : Option Nat}
    {outcome : Outcome} {w : Standing}
    (hU : Plays ⟨run b filter limit catalog results, ws, e⟩ U s₁) (hV : Plays s₁ V s₂)
    (hws : ∀ w ∈ ws, Bygone e.inbox.run w)
    (hsets : ∀ w ∈ ws, w.Only fun op => ∀ token, op ≠ .setToken token)
    (hattached : U.mainTrail = ⟨.attach, number⟩ :: t) (hstops : StopsNobody U.mainTrail)
    (hworkers : ∀ j < U.spawned.length,
      U.spawned[j]? = some (worker b number j filter (token j)))
    (hfresh : e.tokenSet (token m.1.group) = false)
    (haccepted : Event.main ⟨.await m.1.group deadline, .done outcome⟩ ∈ U)
    (herrors : outcome.errors = []) (hfailed : outcome.failed = 0)
    (hthere : s₂.engine.definition? m.1 = some m.2) (hw : s₂.engine.standing? m.1 = some w)
    (hstate : w.state = .failed) : IsUncounted filter ws.length (U ++ V) m := by
  obtain ⟨target, name, u, x, rfl, htrail, hrun⟩ :=
    goes_of_completion hU hws hattached hworkers haccepted
  obtain ⟨outcome, rfl⟩ := outcomeOf_errors herrors
  obtain ⟨checks, v, looks, rfl, hskips, hlooks, hcounts, hwhole⟩ := counts_run hrun
  have hi : ws.length ≤ ws.length + m.1.group := Nat.le_add_right _ _
  have hblock : ⟨.setCursor m.1.group none, ()⟩ :: ⟨.request (.checks m.1.group), checks⟩ :: v <:+:
      U.workerTrail (ws.length + m.1.group) := htrail ▸ ⟨[_], [_], rfl⟩
  by_cases hm : m ∈ selected filter (members m.1.group checks)
  · by_cases hlooked : m ∈ looks.map Prod.fst
    -- The worker has looked at the check when it had not failed yet.
    · obtain ⟨⟨_, status⟩, hlook, rfl⟩ := List.mem_map.mp hlooked
      obtain ⟨after, hafter⟩ := hcounts.looked _ hlook
      obtain ⟨earlier, later, hsights⟩ :=
        exists_sights hblock (List.mem_filter.mp hm).1 hafter
      have hseen : status.state ≠ .failed := by
        have hnone : failures looks = 0 := hcounts.count.symm.trans hfailed
        simpa using List.countP_eq_zero.mp hnone _ hlook
      obtain ⟨ev, hev, hputs⟩ :=
        (hsights.append V).exists_failing (hU.trans hV) hw hstate hseen
      exact .late hi (hsights.append V) hseen hev hputs
    -- The worker has not looked at all checks, so it was told to stop.
    · have hmain := mainly_run b filter limit catalog results
      have hstopped := (hwhole herrors).resolve_left fun hall => hlooked (hall ▸ hm)
      have hread := Story.mem_of_workerTrail
        (hblock.subset (List.mem_cons_of_mem _ List.mem_cons_self))
      have hseen := Story.mem_of_workerTrail
        (hblock.subset (List.mem_cons_of_mem _ (List.mem_cons_of_mem _ hstopped)))
      obtain ⟨a, ha, hasked⟩ :=
        stopAsked_of_seen hU (setsNone_of_plays hU hmain hsets hstops) hfresh hseen
      refine .stopped hi (List.mem_append_left V hread) (List.mem_append_left V hseen)
        ⟨a, ?_, hasked⟩
      rw [Story.actions_append]
      exact List.mem_append_left _ ha
  · obtain ⟨earlier, later, hsplit, -, hlater⟩ := Story.exists_event_of_workerTrail
      (t := [⟨.groupName m.1.group, name⟩, ⟨.setCursor m.1.group none, ()⟩])
      (a := ⟨.request (.checks m.1.group), checks⟩) (by rw [htrail]; rfl)
    have hT : U ++ V = earlier ++ .worker (ws.length + m.1.group)
        ⟨.request (.checks m.1.group), checks⟩ :: (later ++ V) := by
      rw [hsplit, List.append_assoc, List.cons_append]
    obtain ⟨ev, hev, hputs⟩ := exists_failing_of_unselected (hU.trans hV) hT hm
      (fun n hn hout => List.mem_append_left V (Story.mem_of_workerTrail
        (hlater ▸ List.mem_append_left _ (hskips n hn hout)))) hthere hw hstate
    exact .unlisted hi hT hm hev hputs

/-- For every orchestrator, whatever ran on it before and whoever is left over from that, for every
filter, time limit and behaviour, and in whatever order everybody takes their steps: whatever a
report records was made of a check as it stood at some point of the run. If the exit code is at most
1 and the record is in error or aborted, the check was so before the run, or it was put there by
somebody of whom the run does not hear: a worker that is left over from an earlier run, someone from
outside, a predicate, or a callback that ended well. If the exit code is 0 and the record is failed,
the worker of its group has not counted the check: it had looked at the check before this failed, or
it had not taken the check up, which failed after that, or somebody had asked for a stop. So the
exit code tells the truth about all records of a run in which nothing of this kind happens. -/
theorem exit_code_truthful (ho : Lived o ws)
    (h : Plays ⟨run b filter limit o.catalog o.results, ws, o.engine⟩ T s')
    (hdone : s'.main = .done (results', .ok report)) {entry : String × Record}
    (hentry : entry ∈ report.results.entries) :
    (report.exitCode ≤ 1 → entry.2.state.IsSettled → ∃ m U, IsMadeOf T entry m U ∧
      IsHushed b o.engine ws.length T U m.1 entry.2.state) ∧
    (report.exitCode = 0 → s'.engine.size < UInt64.size → entry.2.state = .failed →
      ∃ m U, IsMadeOf T entry m U ∧ IsUncounted filter ws.length U m) := by
  refine ⟨fun hcode hsettled => ?_, fun hcode hsize hfailed => ?_⟩
  · have hclear := clear_of_exitCode hcode
    obtain ⟨m, U, V, s₁, s₂, w, deadline, outcome, hmade, hU, hV, -, hw, hstate, -, -⟩ :=
      exists_making ho h hdone hclear.2 hentry
    have hnotPassed : w.state ≠ .passed := by
      rw [hstate]
      rcases hsettled with hsettled | hsettled <;> rw [hsettled] <;> exact nofun
    refine ⟨m, U ++ V, hmade, ?_⟩
    rw [← hstate] at hsettled ⊢
    rcases (hU.trans hV).exists_cause hw hnotPassed with ⟨v, hv, hsame⟩ | ⟨ev, hev, hputs⟩
    · exact .before hv hsame
    · obtain ⟨status, W, hT, -⟩ := hmade.seen
      have hthere : ev ∈ T := hT ▸ List.mem_append_left _ hev
      exact .unheard hev hputs
        (isUnheard_of_putsIn h ho.bygone hdone hclear hthere hsettled hputs)
  · have hclear := clear_of_exitCode (hcode.trans_le (Nat.zero_le 1))
    obtain ⟨m, U, V, s₁, s₂, w, deadline, outcome, hmade, hU, hV, hthere, hw, hstate, hstops,
      haccepted⟩ := exists_making ho h hdone hclear.2 hentry
    obtain ⟨hlength, number, t, token, hattached, hturns⟩ := spawned_of_run h hdone hclear.2
    obtain ⟨status, W, rfl, -⟩ := hmade.seen
    refine ⟨m, U ++ V, hmade, ?_⟩
    have hg : m.1.group < o.engine.groups.length := by
      rw [← (hU.trans hV).length_groups]
      exact Engine.lt_of_definition? hthere
    have hall : Event.main ⟨.await m.1.group deadline, .done outcome⟩ ∈
        U ++ V ++ .main ⟨.act (.request (.status m.1)), status⟩ :: W :=
      List.mem_append_left _ (List.mem_append_left V haccepted)
    obtain ⟨t', hfirst⟩ := exists_first_of_main haccepted (List.append_assoc U V _ ▸ hattached)
    refine isUncounted_of_failed hU hV ho.bygone (ho.only setsNone_worker) hfirst hstops
      (fun j hj => ?_) (fresh_of_newToken h (hturns _ hg).2.1) haccepted
      (errors_of_clear h ho.bygone hdone hclear.1 hall)
      (failed_of_clear h ho.bygone hdone (failedChecks_of_exitCode hcode) hsize hall) hthere hw
      (hstate.trans hfailed)
    have hlt : j < o.engine.groups.length := by
      rw [← hlength, List.append_assoc, Story.spawned, List.filterMap_append, List.length_append]
      exact Nat.lt_of_lt_of_le hj (Nat.le_add_right _ _)
    rw [← (hturns j hlt).1, List.append_assoc]
    exact (List.getElem?_append_left hj).symm.trans (congrArg (·[j]?) List.filterMap_append.symm)

end Whole

section Shop

/-- The body of the second check puts it in error, and the last hook of the group lets the first
check fail. All of them end well. -/
def hushing : Behaviour Unit where
  act _ call :=
    match call with
    | .body ⟨0, 1⟩ => do
      Callback.ask (.judge ⟨0, 1⟩ (.error "no answer"))
      return .ok ()
    | .afterAll .. => do
      Callback.ask (.judge ⟨0, 0⟩ (.failed "too late"))
      return .ok ()
    | _ => .done (.ok ())
  excuse _ _ := .done none

def hushedRun : Main Unit (Results × Answer) :=
  run hushing notOdd none hookedShop.catalog hookedShop.results

/-- The body of the first check asks for an abort, and puts the second check in error when it goes
on after its sleep. -/
def lingering : Behaviour Unit where
  act _ call :=
    match call with
    | .body ⟨0, 0⟩ => do
      let _ ← Callback.ask (.abort ⟨0, 0⟩ "gone")
      Callback.ask (.sleep 1)
      Callback.ask (.judge ⟨0, 1⟩ (.error "no answer"))
      return .ok ()
    | _ => .done (.ok ())
  excuse _ _ := .done none

/-- The shop after a run that was aborted. -/
def leftShop : Orchestrator Unit := (shop.start lingering notOdd none).2.2

/-- The worker of that run, in its sleep. -/
def sleepers : List (Worker Unit Unit) := (shop.start lingering notOdd none).2.1

def calmRun : Main Unit (Results × Answer) :=
  run calm notOdd none leftShop.catalog leftShop.results

/-- The exit code of a report, with the state of each entry. -/
def coded (x : Except Panic (Results × Answer)) : Option (Nat × List (String × CheckState)) :=
  match x with
  | .ok (_, .ok report) =>
    some (report.exitCode, report.results.entries.map fun entry => (entry.1, entry.2.state))
  | _ => none

theorem exists_coded {x : Except Panic (Results × Answer)} {code : Nat}
    {states : List (String × CheckState)} (h : coded x = some (code, states)) :
    ∃ results report, x = .ok (results, .ok report) ∧ report.exitCode = code ∧
      report.results.entries.map (fun entry => (entry.1, entry.2.state)) = states := by
  unfold coded at h
  split at h
  · rename_i results report
    obtain ⟨hcode, hstates⟩ := Prod.mk.inj (Option.some.inj h)
    exact ⟨results, report, rfl, hcode, hstates⟩
  · cases h

theorem sleepers_lived : Lived leftShop sleepers := by
  have hcoded : coded (Schedule.drive (run lingering notOdd none shop.catalog shop.results) []
      shop.engine).1 = some (2, [("age", .aborted), ("size", .skipped)]) := by decide +kernel
  obtain ⟨results, report, hvalue, -, -⟩ := exists_coded hcoded
  exact shop_fresh.lived.start hvalue

/-- One run has a failed record and one in error, and the next one has a record in error by the
worker that was left over. Both have the exit code of a run in which all checks pass. -/
theorem exit_code_truthful_hookedShop :
    (∃ T s results report, Plays ⟨hushedRun, [], hookedShop.engine⟩ T s ∧
      s.main = .done (results, .ok report) ∧ report.exitCode = 0 ∧
      report.results.entries.map (fun entry => (entry.1, entry.2.state)) =
        [("age", .failed), ("size", .error)] ∧
      (∃ entry m U, IsMadeOf T entry m U ∧ m.2.id = "age" ∧ IsUncounted notOdd 0 U m) ∧
      ∃ entry m U, IsMadeOf T entry m U ∧ m.2.id = "size" ∧
        IsHushed hushing hookedShop.engine 0 T U m.1 .error) ∧
    ∃ T s results report, Plays ⟨calmRun, sleepers, leftShop.engine⟩ T s ∧
      s.main = .done (results, .ok report) ∧ report.exitCode = 0 ∧
      report.results.entries.map (fun entry => (entry.1, entry.2.state)) =
        [("age", .aborted), ("size", .error)] ∧
      ∃ entry m U, IsMadeOf T entry m U ∧ m.2.id = "size" ∧
        IsHushed calm leftShop.engine 1 T U m.1 .error := by
  constructor
  · have hcoded : coded (Schedule.drive hushedRun [] hookedShop.engine).1 =
        some (0, [("age", .failed), ("size", .error)]) := by decide +kernel
    have hsize : (Schedule.drive hushedRun [] hookedShop.engine).2.2.size < UInt64.size := by
      decide +kernel
    obtain ⟨results, report, hvalue, hcode, hstates⟩ := exists_coded hcoded
    have hplays := Schedule.plays_story hushedRun [] hookedShop.engine hvalue
    have hlived : Lived hookedShop [] := (shop_fresh.setHooks 0 _).lived
    obtain ⟨first, hfirst, hid, hfailed⟩ := exists_entry hstates List.mem_cons_self
    obtain ⟨second, hsecond, hid', herror⟩ :=
      exists_entry hstates (List.mem_cons_of_mem _ List.mem_cons_self)
    obtain ⟨m, U, hmade, huncounted⟩ :=
      (exit_code_truthful hlived hplays rfl hfirst).2 hcode hsize hfailed
    obtain ⟨n, V, hmade', hhushed⟩ :=
      (exit_code_truthful hlived hplays rfl hsecond).1 (by omega) (.inl herror)
    exact ⟨_, _, results, report, hplays, rfl, hcode, hstates,
      ⟨first, m, U, hmade, hmade.id_eq.trans hid, huncounted⟩,
      second, n, V, hmade', hmade'.id_eq.trans hid', herror ▸ hhushed⟩
  · have hcoded : coded (Schedule.drive calmRun sleepers leftShop.engine).1 =
        some (0, [("age", .aborted), ("size", .error)]) := by decide +kernel
    have hlength : sleepers.length = 1 := by decide +kernel
    obtain ⟨results, report, hvalue, hcode, hstates⟩ := exists_coded hcoded
    have hplays := Schedule.plays_story calmRun sleepers leftShop.engine hvalue
    obtain ⟨entry, hentry, hid, hstate⟩ :=
      exists_entry hstates (List.mem_cons_of_mem _ List.mem_cons_self)
    obtain ⟨m, U, hmade, hhushed⟩ :=
      (exit_code_truthful sleepers_lived hplays rfl hentry).1 (by omega) (.inl hstate)
    rw [hlength, hstate] at hhushed
    exact ⟨_, _, results, report, hplays, rfl, hcode, hstates, entry, m, U, hmade,
      hmade.id_eq.trans hid, hhushed⟩

end Shop

end Conformance.Run
