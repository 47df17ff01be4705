import Conformance.Proofs.Group.Handover
import Conformance.Proofs.Run.Bookkeeping
import Conformance.Proofs.Run.FailedChecks
import Conformance.Proofs.Run.Hiring
import Conformance.Proofs.Settings.Precedence
import Conformance.Session
import Mathlib.Tactic.Choose

/-!
Listing the checks that a filter selects, running them, and labelling them for an abort. All three
go by the same selection, group by group. A run takes the checks of a group at the turn of the
group, so that a listing tells what a run selects unless checks are added in between. A listing and
a run of the program come to the same filter and the same catalog.
-/
namespace Conformance

variable {κ : Type}

namespace Run

open Conformance.Group Scene

section Listing

theorem ids_selected (filter : Label.Filter) (g : Nat) (checks : List (Check κ)) :
    ((selected filter (members g checks)).map fun m => m.2.id) =
      (checks.filter fun c => filter.selects c.labels).map Check.id := by
  have hchecks : checks.filter (fun c => filter.selects c.labels) =
      (selected filter (members g checks)).map Prod.snd := by
    rw [← membersFrom_checks g 0 checks, List.filter_map, membersFrom_checks]
    rfl
  rw [hchecks, List.map_map]
  rfl

/-- The ids of the checks that the filter selects of each group at the moment given for the group.
-/
def selectedAt (filter : Label.Filter) (moment : Nat → Engine κ) (count : Nat) :
    List String :=
  ((List.range count).flatMap fun g =>
    selected filter (membersOf (moment g) g)).map fun m => m.2.id

/-- A listing goes through the groups, all of them at one moment. -/
theorem selectedIds_eq (o : Orchestrator κ) (filter : Label.Filter) :
    o.selectedIds filter = selectedAt filter (fun _ => o.engine) o.engine.groups.length := by
  have hids (g : Nat) : ((selected filter (membersOf o.engine g)).map fun m => m.2.id) =
      ((o.engine.checksOf g).filter fun k => filter.selects k.check.labels).map
        fun k => k.check.id := by
    rw [membersOf, ids_selected, List.filter_map, List.map_map]
    rfl
  rw [selectedAt, List.map_flatMap]
  simp only [hids]
  rw [← List.map_flatMap, ← List.filter_flatMap, flatMap_checksOf, List.take_length,
    List.filter_flatMap, List.map_flatMap]
  rfl

theorem sublist_selectedAt {filter : Label.Filter} {moment later : Nat → Engine κ} {count : Nat}
    (h : ∀ g < count, (moment g).Grows (later g)) :
    (selectedAt filter moment count).Sublist (selectedAt filter later count) := by
  refine List.Sublist.map _ (List.Sublist.flatMap_right _ fun g hg => ?_)
  exact (isPrefix_selected (isPrefix_checks (h g (List.mem_range.mp hg)) g) g filter).sublist

/-- Whoever labels the checks of a group for an abort goes by the same selection. -/
theorem mem_labels_iff {filter : Label.Filter} {reason : String} {cursor : Option Nat}
    {ms : List (Member κ)} {r : CheckRef} {verdict : Verdict} :
    (r, verdict) ∈ labels filter reason cursor 0 ms ↔
      (∃ m ∈ ms, m ∉ selected filter ms ∧ m.1 = r ∧ verdict = .skipped notMatching) ∨
      ∃ i m, (selected filter ms)[i]? = some m ∧ m.1 = r ∧
        labelAt reason cursor i = some verdict := by
  have hout {m : Member κ} (hm : m ∈ ms) :
      m ∉ selected filter ms ↔ filter.selects m.2.labels = false := by
    rw [selected, List.mem_filter, not_and, Bool.not_eq_true]
    exact ⟨fun h => h hm, fun h _ => h⟩
  rw [mem_labels]
  simp only [Nat.zero_add]
  refine or_congr_left ⟨?_, ?_⟩
  · rintro ⟨m, hm, hsame, hunselected, hverdict⟩
    exact ⟨m, hm, (hout hm).mpr hunselected, hsame, hverdict⟩
  · rintro ⟨m, hm, hunselected, hsame, hverdict⟩
    exact ⟨m, hm, hsame, (hout hm).mp hunselected, hverdict⟩

end Listing

section Handing

theorem hooksOf_of_plays {α : Type} {s s' : Scene κ α} {T : Story κ} (h : Plays s T s') (g : Nat) :
    s'.engine.hooksOf g = s.engine.hooksOf g := by
  refine (h.effect (K := fun e e' => e.hooksOf g = e'.hooksOf g) ?_ ?_ ?_).symm
  · exact ⟨fun _ => rfl, Eq.trans⟩
  · exact fun _ _ _ => rfl
  · exact fun a _ e => (a.1.hooksOf_apply e g).symm

/-- The hooks of a group that somebody is told of are those that it had at the beginning. -/
theorem hooks_of_read {α : Type} {s s' : Scene κ α} {T : Story κ} {i g : Nat} {hooks : Hooks κ}
    (h : Plays s T s') (hread : Event.worker i ⟨.hooks g, hooks⟩ ∈ T) :
    hooks = s.engine.hooksOf g := by
  obtain ⟨U, V, rfl⟩ := List.append_of_mem hread
  obtain ⟨s₁, s₂, hU, hstep, -⟩ := h.exists_step
  rcases hstep.engine_cases with ⟨a, ha, hanswer, -⟩ | ⟨hnone, -⟩
  · cases ha
    have hthere : hooks = s₁.engine.hooksOf g := hanswer
    rw [hthere, hooksOf_of_plays hU g]
  · cases hnone

/-- At this moment, before it calls anything, the worker of a group reads the checks of the group.
It hands those that the filter selects to the hooks around all checks, and no other lists, unless
the group run ends with a panic before all of it is done. -/
structure HandsOver {α : Type} (filter : Label.Filter) (s : Scene κ α) (T : Story κ) (i g : Nat)
    (moment : Engine κ) : Prop where
  reads : ∃ U V s₁ name, T = U ++ .worker i
      ⟨.request (.checks g), (moment.checksOf g).map Registered.check⟩ :: V ∧
    Plays s U s₁ ∧ s₁.engine = moment ∧
    U.workerTrail i = [⟨.groupName g, name⟩, ⟨.setCursor g none, ()⟩]
  hands : handed (T.workerTrail i) <+:
    around g (s.engine.hooksOf g) (selected filter (membersOf moment g))
  completes : ∃ deadline outcome, Event.main ⟨.await g deadline, .done outcome⟩ ∈ T ∧
    ((∀ name panic, outcome ≠ outcomeOf name (.error panic)) →
      handed (T.workerTrail i) =
        around g (s.engine.hooksOf g) (selected filter (membersOf moment g)))

variable {b : Behaviour κ} {filter : Label.Filter} {limit : Option Nat} {catalog : Catalog}
  {results results' : Results} {report : RunReport} {T : Story κ}
  {s' : Scene κ (Results × Answer)} {ws : List (Worker κ Unit)} {e : Engine κ}

/-- Every group of a run that is not aborted has its turn, and its worker hands over what the filter
selects of the checks that are there then. -/
theorem exists_handsOver (h : Plays ⟨run b filter limit catalog results, ws, e⟩ T s')
    (hws : ∀ w ∈ ws, Bygone e.inbox.run w) (hdone : s'.main = .done (results', .ok report))
    (hcalm : report.abortReason = none) {g : Nat} (hg : g < e.groups.length) :
    ∃ moment : Engine κ, HandsOver filter ⟨run b filter limit catalog results, ws, e⟩ T
      (ws.length + g) g moment ∧ e.Grows moment ∧ moment.Grows s'.engine := by
  obtain ⟨hlength, number, t, token, hattached, hturns⟩ := spawned_of_run h hdone hcalm
  obtain ⟨-, -, deadline, outcome, hawaited⟩ := hturns g hg
  obtain ⟨target, name, u, x, houtcome, htrail, hrun⟩ :=
    goes_of_completion h hws hattached (fun j hj => (hturns j (hlength ▸ hj)).1) hawaited
  have hcalls : handed (T.workerTrail (ws.length + g)) = handed u := by
    rw [htrail, ← List.singleton_append, handed_append, handed_append]
    exact List.append_nil _
  obtain ⟨checks, hooks, v, rfl, hhooks, hbegins, hwhole⟩ := handed_of_goes hrun
  -- The hooks are those of the beginning, or there is nothing to hand over.
  have haround : around g hooks (selected filter (members g checks)) =
      around g (e.hooksOf g) (selected filter (members g checks)) := by
    rcases hhooks with hread | hnil
    · have hthere : Event.worker (ws.length + g) ⟨.hooks g, hooks⟩ ∈ T :=
        Story.mem_of_workerTrail (by simp [htrail, hread])
      rw [hooks_of_read h hthere]
    · rw [hnil]
      rfl
  obtain ⟨U, V, hT, hU, -⟩ := Story.exists_event_of_workerTrail
    (t := [⟨.groupName g, name⟩, ⟨.setCursor g none, ()⟩])
    (a := ⟨.request (.checks g), checks⟩) (by rw [htrail]; rfl)
  have hsplit := h
  rw [hT] at hsplit
  obtain ⟨s₁, s₂, hearlier, hstep, hlater⟩ := hsplit.exists_step
  obtain ⟨hchecks, hsame⟩ : checks = (s₁.engine.checksOf g).map Registered.check ∧
      s₂.engine = s₁.engine := by
    rcases hstep.engine_cases with ⟨a, ha, hanswer, hengine⟩ | ⟨hnone, -⟩
    · cases ha
      exact ⟨hanswer, hengine⟩
    · cases hnone
  have hmembers : members g checks = membersOf s₁.engine g := by rw [hchecks]; rfl
  rw [haround, hmembers, ← hcalls] at hbegins hwhole
  refine ⟨s₁.engine, ⟨⟨U, V, s₁, name, hchecks ▸ hT, hearlier, rfl, hU⟩, hbegins, deadline,
    outcome, hawaited, fun hproper => hwhole fun panic hx => ?_⟩, hearlier.grows,
    hsame ▸ hlater.grows⟩
  rw [hx] at houtcome
  exact hproper name panic houtcome

end Handing

section Sessions

open CommandLine

/-- What the settings say about the selection of checks: the filter, the catalog, and the filter
with the checks that it is applied to. -/
def choiceOf (files : FileTree) (s : Settings) :
    Except Label.Fault Label.Filter × Option String ×
      (Nat → Except SessionFault (Label.Filter × Orchestrator Kernel.Task)) :=
  (s.filter, s.catalog, Session.prepare s files)

theorem choiceOf_congr {files : FileTree} {s s' : Settings}
    (hlabels : s.labelFilter = s'.labelFilter) (htags : s.tags = s'.tags)
    (hcatalog : s.catalog = s'.catalog) :
    choiceOf files s = choiceOf files s' := by
  have hfilter : s.filter = s'.filter := by rw [Settings.filter, hlabels, htags]; rfl
  have horchestrator : Session.orchestrator s files = Session.orchestrator s' files := by
    funext clock
    rw [Session.orchestrator, Session.orchestrator, hcatalog]
  rw [choiceOf, choiceOf, hfilter, hcatalog]
  refine congrArg _ (congrArg _ ?_)
  funext clock
  rw [Session.prepare, Session.prepare, hfilter, horchestrator]

variable {l : ListOptions} {r : RunOptions}

theorem choiceOf_ofSources (files : FileTree) (hlabels : r.labelFilter = l.labelFilter)
    (hcatalog : r.catalog = l.catalog) (htimeout : r.timeout ≠ some 0)
    (file : Option FileSettings) :
    (Settings.ofSources l.toRunOptions file).map (choiceOf files) =
      (Settings.ofSources r file).map (choiceOf files) := by
  have hzero : Settings.GivesZero l.toRunOptions (file.getD .none) ↔
      Settings.GivesZero r (file.getD .none) := by
    simp [Settings.GivesZero, ListOptions.toRunOptions, RunOptions.none, htimeout]
  rw [Settings.ofSources_eq, Settings.ofSources_eq]
  by_cases hrefused : Settings.GivesZero r (file.getD .none)
  · rw [if_pos hrefused, if_pos (hzero.mpr hrefused)]
  · rw [if_neg hrefused, if_neg (hzero.not.mpr hrefused)]
    refine congrArg Except.ok (choiceOf_congr ?_ rfl ?_)
    · simp only [Settings.layered, ListOptions.toRunOptions, hlabels]
    · simp only [Settings.layered, ListOptions.toRunOptions, hcatalog]

/-- A listing and a run with the same options for the filter, the catalog and the settings file come
to the same filter and the same catalog, or fail with the same fault. -/
theorem choiceOf_load (files : FileTree) (environment : Option String)
    (hlabels : r.labelFilter = l.labelFilter) (hcatalog : r.catalog = l.catalog)
    (hconfig : r.config = l.config) (htimeout : r.timeout ≠ some 0) :
    (Settings.load files l.toRunOptions environment).map (choiceOf files) =
      (Settings.load files r environment).map (choiceOf files) := by
  have hpath : Settings.filePath? l.toRunOptions environment =
      Settings.filePath? r environment := by
    rw [Settings.filePath?, Settings.filePath?, hconfig]
    rfl
  rw [Settings.load, Settings.load, hpath]
  cases Settings.filePath? r environment with
  | none => exact choiceOf_ofSources files hlabels hcatalog htimeout none
  | some path =>
    cases hfile : FileSettings.load files path with
    | error fault => simp only [hfile]; rfl
    | ok file =>
      simp only [hfile]
      exact choiceOf_ofSources files hlabels hcatalog htimeout (some file)

end Sessions

section Whole

variable {o : Orchestrator κ} {b : Behaviour κ} {filter : Label.Filter} {limit : Option Nat}
  {results' : Results} {report : RunReport} {T : Story κ} {s' : Scene κ (Results × Answer)}
  {ws : List (Worker κ Unit)}

/-- A listing tells the ids of the checks that the filter selects, group by group. For every
orchestrator, whatever ran on it before, for every filter, time limit and behaviour, and in whatever
order everybody takes their steps, in a run that gives a report and is not aborted: there is one
worker for each group, in order, and the lists that it hands over to the hooks around all checks are
those of the checks that the filter selects of the group at one moment, namely when the worker reads
them at its turn. These begin with the ones that were listed before the run, and the ones that are
listed after it begin with them. So if both listings are the same, the run has selected what was
listed, group by group, in order and with repetitions. Whoever labels a group for an abort skips as
not matching the checks that the filter does not select, and labels the others by their places in
the selection. And the options of a listing come to the same filter, the same catalog and the same
checks as those of a run that gives the same ones and a proper timeout, or to the same fault. -/
theorem running_selects_what_is_listed (ho : Lived o ws)
    (h : Plays ⟨run b filter limit o.catalog o.results, ws, o.engine⟩ T s')
    (hdone : s'.main = .done (results', .ok report)) (hcalm : report.abortReason = none) :
    (∀ o : Orchestrator κ, o.selectedIds filter =
      selectedAt filter (fun _ => o.engine) o.engine.groups.length) ∧
    (T.spawned.length = o.engine.groups.length ∧ ∃ moment : Nat → Engine κ,
      (∀ g < o.engine.groups.length,
        HandsOver filter ⟨run b filter limit o.catalog o.results, ws, o.engine⟩ T (ws.length + g) g
          (moment g) ∧
        selected filter (membersOf o.engine g) <+: selected filter (membersOf (moment g) g) ∧
        selected filter (membersOf (moment g) g) <+: selected filter (membersOf s'.engine g)) ∧
      (o.selectedIds filter =
          (⟨s'.engine, o.catalog, results'⟩ : Orchestrator κ).selectedIds filter →
        selectedAt filter moment o.engine.groups.length = o.selectedIds filter)) ∧
    (∀ g reason t x, (labelAborted g filter reason : Callback κ Unit).Goes t x →
      ∃ cursor checks, ∃ ls : List (CheckRef × Verdict),
        t = ⟨.cursor g, cursor⟩ :: ⟨.checks g, checks⟩ ::
          ls.map (fun l => ⟨.judge l.1 l.2, ()⟩) ∧
        ∀ r verdict, (r, verdict) ∈ ls ↔
          (∃ m ∈ members g checks, m ∉ selected filter (members g checks) ∧ m.1 = r ∧
            verdict = .skipped notMatching) ∨
          ∃ i m, (selected filter (members g checks))[i]? = some m ∧ m.1 = r ∧
            labelAt reason cursor i = some verdict) ∧
    ∀ files environment (l : CommandLine.ListOptions) (r : CommandLine.RunOptions),
      r.labelFilter = l.labelFilter → r.catalog = l.catalog → r.config = l.config →
      r.timeout ≠ some 0 →
      (Settings.load files l.toRunOptions environment).map (choiceOf files) =
        (Settings.load files r environment).map (choiceOf files) := by
  refine ⟨fun o => selectedIds_eq o filter, ⟨(spawned_of_run h hdone hcalm).1, ?_⟩, ?_,
    fun files environment l r => choiceOf_load files environment⟩
  · have hturns (g : Nat) : ∃ moment : Engine κ, g < o.engine.groups.length →
        HandsOver filter ⟨run b filter limit o.catalog o.results, ws, o.engine⟩ T (ws.length + g) g
          moment ∧ o.engine.Grows moment ∧ moment.Grows s'.engine := by
      by_cases hg : g < o.engine.groups.length
      · obtain ⟨moment, hmoment⟩ := exists_handsOver h ho.bygone hdone hcalm hg
        exact ⟨moment, fun _ => hmoment⟩
      · exact ⟨o.engine, fun hlt => absurd hlt hg⟩
    choose moment hmoment using hturns
    refine ⟨moment, fun g hg => ?_, fun hsame => ?_⟩
    · obtain ⟨hhands, hbefore, hafter⟩ := hmoment g hg
      exact ⟨hhands, isPrefix_selected (isPrefix_checks hbefore g) g filter,
        isPrefix_selected (isPrefix_checks hafter g) g filter⟩
    · have hbefore : (o.selectedIds filter).Sublist
          (selectedAt filter moment o.engine.groups.length) := by
        rw [selectedIds_eq]
        exact sublist_selectedAt fun g hg => (hmoment g hg).2.1
      have hafter : (selectedAt filter moment o.engine.groups.length).Sublist
          (o.selectedIds filter) := by
        rw [hsame, selectedIds_eq, h.length_groups]
        exact sublist_selectedAt fun g hg => (hmoment g hg).2.2
      exact hafter.antisymm hbefore
  · intro g reason t x hgoes
    obtain ⟨cursor, checks, rfl⟩ := goes_labelAborted hgoes
    exact ⟨cursor, checks, _, rfl, fun _ _ => mem_labels_iff⟩

end Whole

section Market

/-- The market, with hooks around the checks of both groups and an entry for one more check. -/
def hooked : Orchestrator Unit :=
  let o := market.addCatalog (Catalog.empty.insert (documented "height"))
  (o.setHooks 0 ⟨some (), some (), none, none⟩).setHooks 1 ⟨some (), some (), none, none⟩

theorem hooked_fresh : Fresh hooked :=
  .setHooks (.setHooks (.addCatalog market_fresh _) 0 _) 1 _

def hookedRun (b : Behaviour Unit) : Main Unit (Results × Answer) :=
  run b notOdd none hooked.catalog hooked.results

theorem exists_calm_run {b : Behaviour Unit} {states : List (String × CheckState)}
    (htold : told (Schedule.drive (hookedRun b) [] hooked.engine).1 = some ([], states))
    (hmark : abortOf (Schedule.story (hookedRun b) [] hooked.engine).mainTrail = none) :
    ∃ results report, Plays ⟨hookedRun b, [], hooked.engine⟩
      (Schedule.story (hookedRun b) [] hooked.engine)
      ⟨.done (results, .ok report), (Schedule.drive (hookedRun b) [] hooked.engine).2.1,
        (Schedule.drive (hookedRun b) [] hooked.engine).2.2⟩ ∧ report.abortReason = none := by
  obtain ⟨results, report, hvalue, -, -⟩ := exists_told htold
  have hplays := Schedule.plays_story (hookedRun b) [] hooked.engine hvalue
  refine ⟨results, report, hplays, ?_⟩
  rw [(abort_of_run hplays.main_reaches.goes_of_done).1 report rfl, hmark]
  rfl

/-- Where no check is added, the run takes what was listed. -/
theorem running_selects_what_is_listed_hooked :
    hooked.selectedIds notOdd = ["age", "size", "weight"] ∧
    ∃ T s results report, ∃ moment : Nat → Engine Unit,
      Plays ⟨hookedRun calm, [], hooked.engine⟩ T s ∧ s.main = .done (results, .ok report) ∧
      report.abortReason = none ∧ selectedAt notOdd moment 2 = ["age", "size", "weight"] ∧
      handed (T.workerTrail 1) = [.beforeAll 1 [⟨1, 0⟩], .afterAll 1 [⟨1, 0⟩]] ∧
      handed (T.workerTrail 1) <+:
        around 1 (hooked.engine.hooksOf 1) (selected notOdd (membersOf (moment 1) 1)) := by
  have hbefore : hooked.selectedIds notOdd = ["age", "size", "weight"] := by decide +kernel
  have htold : told (Schedule.drive (hookedRun calm) [] hooked.engine).1 =
      some ([], [("age", .passed), ("size", .passed), ("weight", .passed)]) := by decide +kernel
  have hmark : abortOf (Schedule.story (hookedRun calm) [] hooked.engine).mainTrail = none := by
    decide +kernel
  have hafter : { hooked with
      engine := (Schedule.drive (hookedRun calm) [] hooked.engine).2.2 }.selectedIds notOdd =
        ["age", "size", "weight"] := by decide +kernel
  have hhanded : handed (Story.workerTrail 1
      (Schedule.story (hookedRun calm) [] hooked.engine)) =
        [.beforeAll 1 [⟨1, 0⟩], .afterAll 1 [⟨1, 0⟩]] := by decide +kernel
  obtain ⟨results, report, hplays, hcalm⟩ := exists_calm_run htold hmark
  obtain ⟨-, ⟨-, moment, hturns, hsame⟩, -, -⟩ :=
    running_selects_what_is_listed hooked_fresh.lived hplays rfl hcalm
  refine ⟨hbefore, _, _, results, report, moment, hplays, rfl, hcalm, ?_, hhanded, ?_⟩
  · exact (hsame (hbefore.trans hafter.symm)).trans hbefore
  · exact (hturns 1 (by decide +kernel)).1.hands

/-- The body of the first check adds a check to the second group. -/
def latecomer : Behaviour Unit where
  act _ call :=
    match call with
    | .body ⟨0, 0⟩ => do
      let _ ← Callback.ask (.register 1 (plainCheck "height" "common"))
      return .ok ()
    | _ => .done (.ok ())
  excuse _ _ := .done none

/-- The checks that are handed to a hook before all checks of a group. -/
def handedBefore? {κ : Type} : Event κ → Option (List CheckRef)
  | .worker _ ⟨.enter (.beforeAll _ refs), _⟩ => some refs
  | _ => none

/-- A check that is added to a group before its turn is handed over to the hooks of the group,
though it was not listed before the run. -/
theorem listing_does_not_foretell :
    ¬∀ (o : Orchestrator Unit) (b : Behaviour Unit) (filter : Label.Filter) (limit : Option Nat)
      (T : Story Unit) (s : Scene Unit (Results × Answer)) (results : Results)
      (report : RunReport), Lived o [] →
      Plays ⟨run b filter limit o.catalog o.results, [], o.engine⟩ T s →
      s.main = .done (results, .ok report) → report.abortReason = none →
      (∀ g < o.engine.groups.length, (o.engine.hooksOf g).beforeAll.isSome) →
      ((T.filterMap handedBefore?).flatten.filterMap fun r =>
        (s.engine.definition? r).map Check.id) = o.selectedIds filter := by
  intro h
  have htold : told (Schedule.drive (hookedRun latecomer) [] hooked.engine).1 = some ([],
      [("age", .passed), ("height", .passed), ("size", .passed), ("weight", .passed)]) := by
    decide +kernel
  have hmark : abortOf (Schedule.story (hookedRun latecomer) [] hooked.engine).mainTrail =
      none := by decide +kernel
  have hhanded : (((Schedule.story (hookedRun latecomer) [] hooked.engine).filterMap
      handedBefore?).flatten.filterMap fun r =>
        ((Schedule.drive (hookedRun latecomer) [] hooked.engine).2.2.definition? r).map
          Check.id) = ["age", "size", "weight", "height"] := by decide +kernel
  have hlisted : hooked.selectedIds notOdd = ["age", "size", "weight"] := by decide +kernel
  have hhooks : ∀ g < hooked.engine.groups.length, (hooked.engine.hooksOf g).beforeAll.isSome := by
    decide +kernel
  obtain ⟨results, report, hplays, hcalm⟩ := exists_calm_run htold hmark
  have hsame := h hooked latecomer notOdd none _ _ results report hooked_fresh.lived hplays rfl
    hcalm hhooks
  have hids : ["age", "size", "weight", "height"] = ["age", "size", "weight"] :=
    hhanded.symm.trans (hsame.trans hlisted)
  cases hids

end Market

end Run

end Conformance
