import Conformance.Proofs.Group.Looks
import Conformance.Proofs.Report.Aggregation
import Conformance.Proofs.Run.Leftovers
import Conformance.Proofs.Run.Tallies
import Mathlib.Algebra.GroupWithZero.Nat

/-!
The two numbers of failed checks in a report. One is added up from the outcomes of the groups that
were waited for up to their completion, whose workers look at every check once, when they are done
with it. The other is that of the summaries, which are made at the end of the run from the checks as
they stand then. They differ by the checks that nobody has looked at, all of a group at which the
run was aborted among them, and by those that were judged after the look.
-/
namespace Conformance

variable {κ α : Type}

theorem Story.exists_event_of_workerTrail {T : Story κ} {i : Nat} {t u : Group.Trail κ}
    {a : Prog.Exchange (@Action.Resp κ)} (h : T.workerTrail i = t ++ a :: u) :
    ∃ U V : Story κ, T = U ++ .worker i a :: V ∧ U.workerTrail i = t ∧ V.workerTrail i = u := by
  obtain ⟨U, rest, rfl, rfl, hrest⟩ := List.filterMap_eq_append_iff.mp h
  obtain ⟨others, ev, V, rfl, hothers, hev, hV⟩ := List.filterMap_eq_cons_iff.mp hrest
  cases ev with
  | worker j b =>
    simp only [Event.worker?] at hev
    split at hev
    · rename_i hj
      cases hev
      subst hj
      refine ⟨U ++ others, V, (List.append_assoc ..).symm, ?_, hV⟩
      rw [workerTrail, List.filterMap_append, List.filterMap_eq_nil_iff.mpr hothers,
        List.append_nil]
    · cases hev
  | main => cases hev
  | outside => cases hev

/-- The failed checks of all groups together are those in the states that the summaries count. -/
theorem RunReport.failed_summary {report : RunReport} {groups : List Nat}
    {states : Nat → List CheckState}
    (h : report.groups.map GroupReport.summary = groups.map fun g => .ofStates (states g)) :
    report.summary.failed = .ofNat ((groups.flatMap states).countP (· = .failed)) := by
  rw [summary_eq h]
  exact Summary.counter_ofStates _ .failed

namespace Run

open Conformance.Group Scene

section Sights

/-- A worker looks at a check to count it: it has read the check with its group before, and moves
its cursor on right after that. -/
structure Sights (i : Nat) (T : Story κ) (look : Member κ × Status) (earlier later : Story κ) :
    Prop where
  story_eq : T = earlier ++ .worker i ⟨.request (.status look.1.1), look.2⟩ :: later
  known : ∃ checks, Event.worker i ⟨.request (.checks look.1.1.group), checks⟩ ∈ earlier ∧
    look.1 ∈ members look.1.1.group checks
  moves_on : ∃ place t, later.workerTrail i = ⟨.setCursor look.1.1.group (some place), ()⟩ :: t

variable {i : Nat} {T : Story κ} {look : Member κ × Status} {earlier later : Story κ}

theorem Sights.append (h : Sights i T look earlier later) (U : Story κ) :
    Sights i (T ++ U) look earlier (later ++ U) where
  story_eq := by rw [h.story_eq, List.append_assoc, List.cons_append]
  known := h.known
  moves_on := by
    obtain ⟨place, t, ht⟩ := h.moves_on
    exact ⟨place, t ++ Story.workerTrail i U,
      by rw [Story.workerTrail_append, ht, List.cons_append]⟩

theorem exists_sights {g : Nat} {checks : List (Check κ)} {u after : Trail κ}
    (hu : ⟨.setCursor g none, ()⟩ :: ⟨.request (.checks g), checks⟩ :: u <:+: T.workerTrail i)
    (hmem : look.1 ∈ members g checks) (h : LooksAt g u look after) :
    ∃ earlier later, Sights i T look earlier later := by
  obtain ⟨before, place, rfl⟩ := h
  obtain ⟨t₁, t₂, hu⟩ := hu
  have htrail : T.workerTrail i =
      (t₁ ++ ⟨.setCursor g none, ()⟩ :: ⟨.request (.checks g), checks⟩ :: before) ++
        ⟨.request (.status look.1.1), look.2⟩ :: (⟨.setCursor g (some place), ()⟩ ::
          (after ++ t₂)) := by
    rw [← hu]
    simp only [List.append_assoc, List.cons_append]
  obtain ⟨earlier, later, hT, hearlier, hlater⟩ := Story.exists_event_of_workerTrail htrail
  obtain rfl : look.1.1.group = g := (mem_membersFrom.mp hmem).1
  refine ⟨earlier, later, hT, ⟨checks, Story.mem_of_workerTrail (i := i) ?_, hmem⟩,
    place, _, hlater⟩
  rw [hearlier]
  simp

/-- A check that is read after the look stands then as the verdicts in between have left it. -/
theorem Sights.state_eq {s s' : Scene κ α} {W : Story κ} {status : Status}
    (h : Sights i T look earlier later)
    (hplays : Plays s (T ++ .main ⟨.act (.request (.status look.1.1)), status⟩ :: W) s') :
    status.state =
      (later.filterMap (Event.verdictOn? look.1.1)).foldl CheckState.take look.2.state := by
  rw [h.story_eq, List.append_assoc, List.cons_append] at hplays
  refine (congrArg Standing.state (standing_of_reads rfl rfl hplays fun s₁ hs₁ => ?_)).trans
    (Standing.state_foldl_take _ _)
  obtain ⟨checks, hread, hmem⟩ := h.known
  exact ⟨look.1.2, (mem_membersOf.mp (mem_membersOf_of_read hs₁ hread rfl hmem)).2⟩

end Sights

section Looks

variable {b : Behaviour κ} {filter : Label.Filter} {limit : Option Nat} {catalog : Catalog}
  {results : Results} {T : Story κ} {s' : Scene κ (Results × Answer)} {ws : List (Worker κ Unit)}
  {e : Engine κ} {g : Nat}

/-- The outcome of a group that was waited for up to its completion counts the looks of a worker of
the run, and those are at the first ones of the checks that the filter selects. -/
theorem exists_looks_of_completion (h : Plays ⟨run b filter limit catalog results, ws, e⟩ T s')
    (hws : ∀ w ∈ ws, Bygone e.inbox.run w) {number : Nat} {t : MainTrail κ}
    (hattached : T.mainTrail = ⟨.attach, number⟩ :: t) {deadline : Option Nat} {outcome : Outcome}
    (haccepted : Event.main ⟨.await g deadline, .done outcome⟩ ∈ T) :
    ∃ looks : List (Member κ × Status), outcome.failed = failures looks ∧
      (looks = [] ∨ ∃ i checks, ws.length ≤ i ∧
        Event.worker i ⟨.request (.checks g), checks⟩ ∈ T ∧
        looks.map Prod.fst <+: selected filter (members g checks) ∧
        ∀ look ∈ looks, ∃ earlier later, Sights i T look earlier later) := by
  obtain ⟨i, target, hi, hsent⟩ := sent_of_accepted h hws hattached haccepted
  obtain ⟨number', g', token, -, hworker⟩ := worker_of_plays h hi hsent
  obtain ⟨name, u, x, hsignal, hu, hrun⟩ :=
    (progressed_of_plays h hworker).goes_of_send (Story.mem_workerTrail hsent)
  cases hsignal
  cases x with
  | error panic => exact ⟨[], rfl, .inl rfl⟩
  | ok outcome =>
    obtain ⟨checks, v, looks, rfl, -, hlooks, hcounts, -⟩ := counts_run hrun
    refine ⟨looks, hcounts.count, .inr ⟨i, checks, hi, ?_, hlooks, fun look hlook => ?_⟩⟩
    · exact Story.mem_of_workerTrail (hu.subset (by simp))
    · obtain ⟨after, hafter⟩ := hcounts.looked look hlook
      have hmem := hlooks.subset (List.mem_map_of_mem hlook)
      exact exists_sights hu (List.mem_filter.mp hmem).1 hafter

end Looks

/-- A check in the two counts of a report: the state in which it was found when its group counted
the failed ones, if that looked at it, the verdicts after that, and the state in which the summary
counts it. -/
structure Count (κ : Type) where
  member : Member κ
  seen : Option CheckState
  late : List Verdict
  ended : CheckState

namespace Count

def found (y : Count κ) : Bool := y.seen = some .failed

def failed (y : Count κ) : Bool := y.ended = .failed

/-- The check is counted as failed by the summary only. -/
def missed (y : Count κ) : Bool := y.failed && !y.found

/-- The check is counted as failed by its group only. -/
def undone (y : Count κ) : Bool := y.found && !y.failed

def sight? (y : Count κ) : Option (Member κ × CheckState) := y.seen.map (y.member, ·)

/-- The check was read for the summary, and a worker of this run had looked at it before, or none
had. -/
inductive IsOf (first : Nat) (T : Story κ) : Count κ → Prop
  | unseen {U W : Story κ} {m : Member κ} {status : Status}
      (hT : T = U ++ .main ⟨.act (.request (.status m.1)), status⟩ :: W) :
      IsOf first T ⟨m, none, [], status.state⟩
  | seen {U W earlier later : Story κ} {i : Nat} {look : Member κ × Status} {status : Status}
      (hT : T = U ++ .main ⟨.act (.request (.status look.1.1)), status⟩ :: W) (hi : first ≤ i)
      (hsights : Sights i U look earlier later)
      (hended : status.state =
        (later.filterMap (Event.verdictOn? look.1.1)).foldl CheckState.take look.2.state) :
      IsOf first T
        ⟨look.1, some look.2.state, later.filterMap (Event.verdictOn? look.1.1), status.state⟩

variable {first : Nat} {T : Story κ} {y : Count κ}

theorem IsOf.found_eq_failed (h : IsOf first T y) (hlate : y.late = [])
    (hunseen : y.seen = none → y.ended ≠ .failed) : y.found = y.failed := by
  cases h with
  | unseen => simpa [found, failed] using hunseen rfl
  | seen hT hi hsights hended =>
    simp only at hlate
    rw [hlate, List.foldl_nil] at hended
    simp [found, failed, hended]

theorem countP_missed (ys : List (Count κ)) :
    ys.countP found + ys.countP missed = ys.countP failed + ys.countP undone := by
  induction ys with
  | nil => rfl
  | cons y ys ih =>
    simp only [List.countP_cons, missed, undone]
    by_cases hfound : y.found = true <;> by_cases hfailed : y.failed = true <;>
      simp [hfound, hfailed] <;> omega

theorem countP_found {ys : List (Count κ)} {looks : List (Member κ × Status)}
    (h : ys.filterMap sight? = looks.map fun look => (look.1, look.2.state)) :
    ys.countP found = failures looks := by
  have hseen : ys.countP found = (ys.filterMap sight?).countP (·.2 = .failed) := by
    rw [List.countP_filterMap]
    refine List.countP_congr fun y _ => ?_
    cases hy : y.seen <;> simp [found, sight?, hy]
  rw [hseen, h, List.countP_map]
  rfl

/-- The looks and the readings for the summary, check by check. -/
theorem exists_counts {looks counted : List (Member κ × Status)}
    (hmembers : (looks.map Prod.fst).Sublist (counted.map Prod.fst))
    (hunseen : ∀ c ∈ counted, IsOf first T ⟨c.1, none, [], c.2.state⟩)
    (hseen : ∀ look ∈ looks, ∀ c ∈ counted, look.1 = c.1 →
      ∃ late, IsOf first T ⟨c.1, some look.2.state, late, c.2.state⟩) :
    ∃ ys : List (Count κ), ys.map member = counted.map Prod.fst ∧
      ys.map ended = counted.map (·.2.state) ∧
      ys.filterMap sight? = (looks.map fun look => (look.1, look.2.state)) ∧
      ∀ y ∈ ys, IsOf first T y := by
  induction counted generalizing looks with
  | nil =>
    obtain rfl := List.map_eq_nil_iff.mp (List.sublist_nil.mp hmembers)
    exact ⟨[], rfl, rfl, rfl, List.forall_mem_nil _⟩
  | cons c counted ih =>
    obtain ⟨hfirst, hothers⟩ := List.forall_mem_cons.mp hunseen
    rcases List.sublist_cons_iff.mp hmembers with hrest | ⟨ms, hms, hrest⟩
    · obtain ⟨ys, hmembers, hended, hsights, hys⟩ := ih hrest hothers fun look hlook c' hc' =>
        hseen look hlook c' (List.mem_cons_of_mem _ hc')
      refine ⟨⟨c.1, none, [], c.2.state⟩ :: ys, ?_, ?_, hsights,
        List.forall_mem_cons.mpr ⟨hfirst, hys⟩⟩
      · rw [List.map_cons, hmembers, List.map_cons]
      · rw [List.map_cons, hended, List.map_cons]
    · obtain ⟨look, looks, rfl, hsame, rfl⟩ := List.map_eq_cons_iff.mp hms
      obtain ⟨late, hlook⟩ := hseen look List.mem_cons_self c List.mem_cons_self hsame
      obtain ⟨ys, hmembers, hended, hsights, hys⟩ := ih hrest hothers fun look' hlook' c' hc' =>
        hseen look' (List.mem_cons_of_mem _ hlook') c' (List.mem_cons_of_mem _ hc')
      refine ⟨⟨c.1, some look.2.state, late, c.2.state⟩ :: ys, ?_, ?_, ?_,
        List.forall_mem_cons.mpr ⟨hlook, hys⟩⟩
      · rw [List.map_cons, hmembers, List.map_cons]
      · rw [List.map_cons, hended, List.map_cons]
      · have hsight : sight? ⟨c.1, some look.2.state, late, c.2.state⟩ =
            some (look.1, look.2.state) := by rw [hsame]; rfl
        rw [List.filterMap_cons_some hsight, hsights, List.map_cons]

end Count

section Gains

variable {p : Plan κ} {s s' : Progress} {t : MainTrail κ} {report : RunReport}

theorem failedChecks_of_report {began : Nat} {groups : List Nat}
    (h : (Run.report p s began groups).Goes t (.ok report)) :
    report.failedChecks = .ofNat s.failed := by
  obtain ⟨t₁, t₂, reports, rfl, -, hrest⟩ := Prog.goes_bind_ok h
  obtain ⟨ended, t₃, rfl, hdone⟩ := Prog.goes_request_bind hrest
  cases (Prog.goes_done hdone).2
  rfl

/-- What is counted as failed group by group, as each of them has its turn. -/
theorem exists_gains {gs : List Nat} (hgs : gs.Nodup)
    (h : (runGroups p s gs).Goes t (.ok (s', none))) :
    ∃ gain : Nat → Nat, s'.failed = s.failed + (gs.map gain).sum ∧
      ∀ g ∈ gs, ∃ s₁ u s₂, Visit p g s₁ u s₂ ∧ u <:+: t ∧ s₂.failed = s₁.failed + gain g := by
  induction gs generalizing s t with
  | nil =>
    cases (Prog.goes_done h).2
    exact ⟨fun _ => 0, rfl, List.forall_mem_nil _⟩
  | cons g gs ih =>
    obtain ⟨hg, hrest⟩ := List.nodup_cons.mp hgs
    obtain ⟨t₁, t₂, t₃, s₁, results, first, rfl, hvisit, -, hend⟩ := goes_runGroups_cons h
    rcases hend with ⟨hmissing, hnone, -, -⟩ | ⟨-, hlater⟩
    · exact absurd hnone.symm hmissing
    obtain ⟨gain, hsum, hgains⟩ := ih hrest hlater
    have hfirst : s.failed ≤ s₁.failed := by
      cases hvisit with
      | completed => exact Nat.le_add_right _ _
      | _ => exact Nat.le_refl _
    have hother : ∀ i ∈ gs, i ≠ g := fun i hi => ne_of_mem_of_not_mem hi hg
    refine ⟨Function.update gain g (s₁.failed - s.failed), ?_,
      List.forall_mem_cons.mpr ⟨⟨s, t₁, s₁, hvisit, ?_, ?_⟩, fun i hi => ?_⟩⟩
    · have hsame : gs.map (Function.update gain g (s₁.failed - s.failed)) = gs.map gain :=
        List.map_congr_left fun i hi => Function.update_of_ne (hother i hi) _ _
      rw [List.map_cons, hsame, List.sum_cons, Function.update_self, hsum]
      simp only
      omega
    · exact (List.prefix_append _ _).isInfix
    · rw [Function.update_self]
      omega
    · obtain ⟨s₂, u, s₃, hturn, hu, hgain⟩ := hgains i hi
      rw [Function.update_of_ne (hother i hi)]
      exact ⟨s₂, u, s₃, hturn, hu.trans (infix_last t₁ t₂ t₃), hgain⟩

end Gains

section Whole

variable {b : Behaviour κ} {filter : Label.Filter} {limit : Option Nat} {catalog : Catalog}
  {results results' : Results} {report : RunReport} {U V T : Story κ}
  {s' : Scene κ (Results × Answer)} {ws : List (Worker κ Unit)} {e : Engine κ} {g : Nat}

/-- The looks at the checks of a group that the report counts. There are none if the group was left
out or ended with an abort. -/
theorem exists_looks_of_visit (h : Plays ⟨run b filter limit catalog results, ws, e⟩ (U ++ V) s')
    (hws : ∀ w ∈ ws, Bygone e.inbox.run w) {number : Nat} {t : MainTrail κ}
    (hattached : U.mainTrail = ⟨.attach, number⟩ :: t) {p : Plan κ} {s₁ s₂ : Progress}
    {u : MainTrail κ} (hvisit : Visit p g s₁ u s₂) (hu : u <:+: U.mainTrail) {gain : Nat}
    (hgain : s₂.failed = s₁.failed + gain) {checks : List (Check κ)}
    (hread : ⟨.act (.request (.checks g)), checks⟩ ∈ V.mainTrail) :
    ∃ looks : List (Member κ × Status), gain = failures looks ∧
      (s₂.abort ≠ none → looks = []) ∧
      looks.map Prod.fst <+: selected filter (members g checks) ∧
      ∀ look ∈ looks, ∃ i earlier later, ws.length ≤ i ∧ Sights i U look earlier later := by
  have hnothing (hzero : gain = 0) : ∃ looks : List (Member κ × Status), gain = failures looks ∧
      (s₂.abort ≠ none → looks = []) ∧
      looks.map Prod.fst <+: selected filter (members g checks) ∧
      ∀ look ∈ looks, ∃ i earlier later, ws.length ≤ i ∧ Sights i U look earlier later :=
    ⟨[], hzero, fun _ => rfl, List.nil_prefix, List.forall_mem_nil _⟩
  cases hvisit with
  | left => exact hnothing (by omega)
  | expired => exact hnothing (by simpa using hgain)
  | interrupted => exact hnothing (by simpa using hgain)
  | @completed _ _ outcome hnone =>
    obtain rfl : gain = outcome.failed := (Nat.add_left_cancel hgain).symm
    obtain ⟨s₃, hU, -⟩ := h.split
    have haccepted : Event.main ⟨.await g p.deadline, .done outcome⟩ ∈ U :=
      Story.mem_of_mainTrail (hu.subset (by simp))
    obtain ⟨looks, hcount, hlooks⟩ := exists_looks_of_completion hU hws hattached haccepted
    rcases hlooks with rfl | ⟨i, earlier, hi, htold, hmembers, hsights⟩
    · exact hnothing hcount
    · refine ⟨looks, hcount, fun habort => absurd hnone habort, hmembers.trans ?_, ?_⟩
      · have hgrown := (isPrefix_of_reads h rfl htold rfl (Story.mem_of_mainTrail hread)).2
        exact hgrown.filter _
      · intro look hlook
        obtain ⟨before, after, hsight⟩ := hsights look hlook
        exact ⟨i, before, after, hi, hsight⟩

/-- How a group has come into the counts of a report. Of a group that was left out or ended with an
abort no check was seen. Of the others those were that come first among the selected ones. -/
def Reckons (p : Plan κ) (g : Nat) (T : Story κ) (ys : List (Count κ)) : Prop :=
  ∃ s u s', Visit p g s u s' ∧ u <:+: T.mainTrail ∧
    s'.failed = s.failed + ys.countP Count.found ∧
    (s'.abort ≠ none → ∀ y ∈ ys, y.seen = none) ∧
    (ys.filterMap Count.sight?).map Prod.fst <+: selected p.filter (ys.map Count.member)

/-- The counts of one group, which has its turn on the one part of a run and is read for its summary
on the other. -/
theorem exists_group_counts
    (h : Plays ⟨run b filter limit catalog results, ws, e⟩ (U ++ V) s')
    (hws : ∀ w ∈ ws, Bygone e.inbox.run w) {number : Nat} {t : MainTrail κ}
    (hattached : U.mainTrail = ⟨.attach, number⟩ :: t) {p : Plan κ} {s₁ s₂ : Progress}
    (hfilter : p.filter = filter) {u : MainTrail κ} (hvisit : Visit p g s₁ u s₂)
    (hu : u <:+: U.mainTrail) {gain : Nat} (hgain : s₂.failed = s₁.failed + gain)
    {checks : List (Check κ)} {counted : List (Member κ × Status)}
    (hread : ⟨.act (.request (.checks g)), checks⟩ ∈ V.mainTrail)
    (hcounted : counted.map Prod.fst = members g checks)
    (hstates : ∀ c ∈ counted, ⟨.act (.request (.status c.1.1)), c.2⟩ ∈ V.mainTrail) :
    ∃ ys : List (Count κ), ys.map Count.member = members g checks ∧
      ys.map Count.ended = counted.map (·.2.state) ∧ ys.countP Count.found = gain ∧
      (∀ y ∈ ys, y.IsOf ws.length (U ++ V)) ∧ Reckons p g (U ++ V) ys := by
  obtain ⟨looks, rfl, hnone, hprefix, hsights⟩ :=
    exists_looks_of_visit h hws hattached hvisit hu hgain hread
  subst hfilter
  have hsublist : (looks.map Prod.fst).Sublist (counted.map Prod.fst) := by
    rw [hcounted]
    exact hprefix.sublist.trans List.filter_sublist
  have hunseen : ∀ c ∈ counted, Count.IsOf ws.length (U ++ V) ⟨c.1, none, [], c.2.state⟩ := by
    intro c hc
    obtain ⟨V₁, V₂, rfl⟩ := List.append_of_mem (Story.mem_of_mainTrail (hstates c hc))
    exact .unseen (List.append_assoc U V₁ _).symm
  have hseen : ∀ look ∈ looks, ∀ c ∈ counted, look.1 = c.1 →
      ∃ late, Count.IsOf ws.length (U ++ V) ⟨c.1, some look.2.state, late, c.2.state⟩ := by
    intro look hlook c hc hsame
    obtain ⟨V₁, V₂, rfl⟩ := List.append_of_mem (Story.mem_of_mainTrail (hstates c hc))
    obtain ⟨i, earlier, later, hi, hsight⟩ := hsights look hlook
    rw [← hsame, ← List.append_assoc] at h ⊢
    exact ⟨_, .seen rfl hi (hsight.append V₁) ((hsight.append V₁).state_eq h)⟩
  obtain ⟨ys, hmembers, hended, hlooks, hys⟩ := Count.exists_counts hsublist hunseen hseen
  rw [hcounted] at hmembers
  have hfound := Count.countP_found hlooks
  refine ⟨ys, hmembers, hended, hfound, hys, s₁, u, s₂, hvisit, ?_, ?_, fun habort y hy => ?_, ?_⟩
  · refine hu.trans ?_
    rw [Story.mainTrail, Story.mainTrail, List.filterMap_append]
    exact (List.prefix_append _ _).isInfix
  · rw [hfound, hgain]
  · rw [hnone habort, List.map_nil, List.filterMap_eq_nil_iff] at hlooks
    exact Option.map_eq_none_iff.mp (hlooks y hy)
  · rw [hlooks, List.map_map, hmembers]
    exact hprefix

/-- For every orchestrator, whatever ran on it before, for every filter, time limit and behaviour,
and in whatever order everybody takes their steps, whether or not the run is aborted: the number of
failed checks in a report is that of the checks that the workers of the run found failed when they
were done with them, in the groups that were waited for up to their completion. The one in its
summary is that of the checks of all groups that stand failed when the report is written. They are
the same number if nobody judges a check after its worker was done with it, and no check stands
failed at the end that no worker has looked at, as those do that fail in a group before an abort of
it. -/
theorem failed_checks_of_completions {o : Orchestrator κ} (ho : Lived o ws)
    (h : Plays ⟨run b filter limit o.catalog o.results, ws, o.engine⟩ T s')
    (hdone : s'.main = .done (results', .ok report)) :
    ∃ (p : Plan κ) (counts : Nat → List (Count κ)), p.behaviour = b ∧ p.filter = filter ∧
      let groups := List.range o.engine.groups.length
      let all := groups.flatMap counts
      report.failedChecks = .ofNat (all.countP Count.found) ∧
      report.summary.failed = .ofNat (all.countP Count.failed) ∧
      all.countP Count.found + all.countP Count.missed =
        all.countP Count.failed + all.countP Count.undone ∧
      ((∀ y ∈ all, y.late = []) → (∀ y ∈ all, y.seen = none → y.ended ≠ .failed) →
        all.countP Count.found = all.countP Count.failed) ∧
      report.groups.map GroupReport.checkIds =
        groups.map (fun g => (counts g).map fun y => y.member.2.id) ∧
      report.groups.map GroupReport.summary =
        groups.map (fun g => .ofStates ((counts g).map Count.ended)) ∧
      ∀ g ∈ groups, membersOf o.engine g <+: (counts g).map Count.member ∧
        (∀ y ∈ counts g, y.IsOf ws.length T) ∧ Reckons p g T (counts g) := by
  have hgoes := h.main_reaches
  rw [hdone] at hgoes
  obtain ⟨number, began, count, t₁, t₂, s, missing, htrail, hgroups, -, -, -, -, hended⟩ :=
    goes_run hgoes.goes_of_done
  obtain ⟨rfl, p, t₃, rfl, hreport⟩ := hended report rfl
  obtain ⟨gain, hsum, hgains⟩ := exists_gains List.nodup_range hgroups
  obtain ⟨reads, counted, hreads, hids, hsummaries⟩ :=
    exists_reads_of_report List.nodup_range hreport
  obtain rfl : count = o.engine.groups.length :=
    h.groupCount (Story.mem_of_mainTrail (htrail ▸ by simp))
  rw [← List.append_assoc] at htrail
  obtain ⟨U, V, rfl, hU, hV⟩ := Story.exists_split_of_mainTrail htrail
  have hcounts : ∀ g ∈ List.range o.engine.groups.length, ∃ ys : List (Count κ),
      ys.map Count.member = members g (reads g) ∧
      ys.map Count.ended = (counted g).map (·.2.state) ∧ ys.countP Count.found = gain g ∧
      (∀ y ∈ ys, y.IsOf ws.length (U ++ V)) ∧
      Reckons ⟨b, number, filter, limit.map (began + ·), o.catalog⟩ g (U ++ V) ys := by
    intro g hg
    obtain ⟨s₁, u, s₂, hvisit, hu, hgain⟩ := hgains g hg
    obtain ⟨hread, hmembers, hstates⟩ := hreads g hg
    refine exists_group_counts h ho.bygone hU rfl hvisit ?_ hgain (hV ▸ ?_) hmembers fun c hc => ?_
    · rw [hU]
      exact hu.trans (List.suffix_append _ _).isInfix
    · exact List.mem_append_left _ hread
    · rw [hV]
      exact List.mem_append_left _ (hstates c hc)
  choose! counts hmembers hstates hfound hys hreckons using hcounts
  have hall : report.groups.map GroupReport.summary =
      (List.range o.engine.groups.length).map fun g => .ofStates ((counts g).map Count.ended) := by
    rw [hsummaries]
    exact List.map_congr_left fun g hg => by rw [hstates g hg]
  refine ⟨⟨b, number, filter, limit.map (began + ·), o.catalog⟩, counts, rfl, rfl, ?_, ?_,
    Count.countP_missed _, ?_, ?_, hall, fun g hg => ⟨?_, hys g hg, hreckons g hg⟩⟩
  · rw [failedChecks_of_report hreport, hsum, List.countP_flatMap, Nat.zero_add]
    exact congrArg (fun gains => UInt64.ofNat (List.sum gains))
      (List.map_congr_left fun g hg => (hfound g hg).symm)
  · rw [RunReport.failed_summary hall, ← List.map_flatMap, List.countP_map]
    rfl
  · intro hlate hunseen
    refine List.countP_congr fun y hy => ?_
    obtain ⟨g, hg, hy'⟩ := List.mem_flatMap.mp hy
    rw [(hys g hg y hy').found_eq_failed (hlate y hy) (hunseen y hy)]
  · rw [hids]
    refine List.map_congr_left fun g hg => ?_
    rw [← ids_members g, ← hmembers g hg, List.map_map]
    rfl
  · rw [hmembers g hg]
    have hread := Story.mem_of_mainTrail (T := U ++ V) (htrail ▸ List.mem_append_right _
      (List.mem_append_left _ (hreads g hg).1))
    obtain ⟨e₁, hbefore, -, hchecks⟩ := exists_moment_of_read h hread rfl
    rw [hchecks]
    exact isPrefix_members (isPrefix_checks hbefore g) g

end Whole

section Market

/-- The first check fails, and the second one of its group asks for an abort and waits for the end
of the run. -/
def spoiling : Behaviour Unit where
  act _ call :=
    match call with
    | .body ⟨0, 0⟩ => do
      Callback.ask (.judge ⟨0, 0⟩ (.failed "too big"))
      return .ok ()
    | .body ⟨0, 1⟩ => do
      let _ ← Callback.ask (.abort ⟨0, 1⟩ "gone")
      Callback.ask .pause
      return .ok ()
    | _ => .done (.ok ())
  excuse _ _ := .done none

/-- The failed checks of a report, and those of its summary. -/
def failedBothWays (x : Except Panic (Results × Answer)) : Option (UInt64 × UInt32) :=
  match x with
  | .ok (_, .ok report) => some (report.failedChecks, report.summary.failed)
  | _ => none

theorem exists_failedBothWays {x : Except Panic (Results × Answer)} {failed : UInt64}
    {summed : UInt32} (h : failedBothWays x = some (failed, summed)) :
    ∃ results report, x = .ok (results, .ok report) ∧ report.failedChecks = failed ∧
      report.summary.failed = summed := by
  unfold failedBothWays at h
  split at h
  · rename_i results report
    obtain ⟨hfailed, hsummed⟩ := Prod.mk.inj (Option.some.inj h)
    exact ⟨results, report, rfl, hfailed, hsummed⟩
  · cases h

/-- The one failed check is missed, because its group is not waited for up to its completion. -/
theorem failed_checks_of_completions_market :
    ∃ T s results report, ∃ counts : Nat → List (Count Unit),
      Plays ⟨marketRun spoiling, [], market.engine⟩ T s ∧
      s.main = .done (results, .ok report) ∧
      report.failedChecks = 0 ∧ report.summary.failed = 1 ∧
      let all := (List.range 2).flatMap counts
      report.failedChecks = .ofNat (all.countP Count.found) ∧
      report.summary.failed = .ofNat (all.countP Count.failed) ∧
      all.countP Count.found + all.countP Count.missed =
        all.countP Count.failed + all.countP Count.undone := by
  have hboth : failedBothWays (Schedule.drive (marketRun spoiling) [] market.engine).1 =
      some (0, 1) := by decide +kernel
  obtain ⟨results, report, hvalue, hfailed, hsummed⟩ := exists_failedBothWays hboth
  have hplays := Schedule.plays_story (marketRun spoiling) [] market.engine hvalue
  obtain ⟨p, counts, -, -, hfound, hended, hmissed, -⟩ :=
    failed_checks_of_completions market_fresh.lived hplays rfl
  exact ⟨_, _, results, report, counts, hplays, rfl, hfailed, hsummed, hfound, hended, hmissed⟩

end Market

end Run

end Conformance
