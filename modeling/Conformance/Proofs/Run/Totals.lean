import Conformance.Proofs.Report.Aggregation
import Conformance.Proofs.Run.Tallies

/-!
The summary of a report as the summary of all checks. The groups are gone through once when the
report is written, each time reading which checks the group has and then each of them, so that every
check is counted once, in the state in which it is at that moment. Merging the summaries of the
groups gives the summary of all these checks.
-/
namespace Conformance.Run

open Conformance.Group Scene

variable {κ α : Type}

section Moments

variable {s s' : Scene κ α} {T : Story κ} {m : Member κ} {g : Nat} {checks : List (Check κ)}
  {counted : List (Member κ × Status)}

/-- At some moment of the story the check is registered, and in this state. -/
def StoodAs (s : Scene κ α) (T : Story κ) (m : Member κ) (state : CheckState) : Prop :=
  ∃ U V s₁ v, T = U ++ V ∧ Plays s U s₁ ∧ s₁.engine.definition? m.1 = some m.2 ∧
    s₁.engine.standing? m.1 = some v ∧ v.state = state

/-- The check is read after its group, so it is there by then. -/
theorem CountsGroup.stoodAs (hcounts : CountsGroup g checks counted T.mainTrail)
    (h : Plays s T s') {c : Member κ × Status} (hc : c ∈ counted) :
    StoodAs s T c.1 c.2.state := by
  obtain ⟨before, after, htrail, hafter⟩ := hcounts.order
  obtain ⟨U, rest, rfl, -, rfl⟩ := Story.exists_event_of_mainTrail htrail
  obtain ⟨V, W, rfl⟩ := List.append_of_mem (Story.mem_of_mainTrail (hafter c hc))
  rw [← List.cons_append, ← List.append_assoc] at h ⊢
  obtain ⟨s₁, s₂, hU, -, -, hstatus⟩ := exists_scenes_of_status rfl h
  have hmember : c.1 ∈ members g checks := hcounts.members_eq ▸ List.mem_map_of_mem hc
  have hthere := mem_membersOf_of_read hU (List.mem_append_right U List.mem_cons_self) rfl hmember
  obtain ⟨v, hv⟩ := exists_standing_of_mem hthere
  exact ⟨_, _, s₁, v, rfl, hU, (mem_membersOf.mp hthere).2, hv,
    (congrArg Standing.state (hstatus v hv)).symm⟩

theorem CountsGroup.between (hcounts : CountsGroup g checks counted T.mainTrail)
    (h : Plays s T s') : membersOf s.engine g <+: counted.map Prod.fst ∧
      counted.map Prod.fst <+: membersOf s'.engine g := by
  obtain ⟨before, after, htrail, -⟩ := hcounts.order
  have hread : ⟨.act (.request (.checks g)), checks⟩ ∈ T.mainTrail :=
    htrail ▸ List.mem_append_right _ List.mem_cons_self
  rw [hcounts.members_eq]
  exact isPrefix_members_of_read h (Story.mem_of_mainTrail hread) rfl

end Moments

section Census

/-- All checks of a number of groups, with what is counted of each. -/
def allCounted (count : Nat) (counted : Nat → List (Member κ × CheckState)) :
    List (Member κ × CheckState) :=
  (List.range count).flatMap counted

/-- The report counts these checks, group by group: all that were there before the run, none that
are not there after it, each of them once and in a state in which it has been during the run. -/
structure IsCensus (s s' : Scene κ α) (T : Story κ) (report : RunReport)
    (counted : Nat → List (Member κ × CheckState)) : Prop where
  ids : report.groups.map GroupReport.checkIds =
    (List.range s.engine.groups.length).map fun g => (counted g).map fun c => c.1.2.id
  groups : report.groups.map GroupReport.summary =
    (List.range s.engine.groups.length).map fun g => .ofStates ((counted g).map Prod.snd)
  whole : report.summary = .ofStates ((allCounted s.engine.groups.length counted).map Prod.snd)
  between : ∀ g < s.engine.groups.length, membersOf s.engine g <+: (counted g).map Prod.fst ∧
    (counted g).map Prod.fst <+: membersOf s'.engine g
  once : ((allCounted s.engine.groups.length counted).map fun c => c.1.1).Nodup
  stood : ∀ c ∈ allCounted s.engine.groups.length counted, StoodAs s T c.1 c.2

namespace IsCensus

variable {s s' : Scene κ α} {T : Story κ} {report : RunReport}
  {counted : Nat → List (Member κ × CheckState)} (h : IsCensus s s' T report counted)
include h

theorem count_eq_one {r : CheckRef} {c : Check κ} (hthere : s.engine.definition? r = some c) :
    ((allCounted s.engine.groups.length counted).map fun x => x.1.1).count r = 1 := by
  have hg := Engine.lt_of_definition? hthere
  have hmember : (r, c) ∈ membersOf s.engine r.group := mem_membersOf.mpr ⟨rfl, hthere⟩
  have hmem := (h.between r.group hg).1.subset hmember
  obtain ⟨x, hx, hsame⟩ := List.mem_map.mp hmem
  have hall : x ∈ allCounted s.engine.groups.length counted :=
    List.mem_flatMap.mpr ⟨r.group, List.mem_range.mpr hg, hx⟩
  exact List.count_eq_one_of_mem h.once (List.mem_map.mpr ⟨x, hall, congrArg Prod.fst hsame⟩)

theorem size_le (hlength : s'.engine.groups.length = s.engine.groups.length) :
    s.engine.size ≤ (allCounted s.engine.groups.length counted).length ∧
      (allCounted s.engine.groups.length counted).length ≤ s'.engine.size := by
  have hmembers : ((List.range s.engine.groups.length).flatMap fun g =>
      (counted g).map Prod.fst).length = (allCounted s.engine.groups.length counted).length := by
    rw [← List.map_flatMap, List.length_map, allCounted]
  rw [← hmembers]
  exact size_le_of_isPrefix hlength h.between

end IsCensus

variable {b : Behaviour κ} {filter : Label.Filter} {limit : Option Nat} {catalog : Catalog}
  {results results' : Results} {report : RunReport} {T : Story κ}
  {s' : Scene κ (Results × Answer)} {ws : List (Worker κ Unit)} {e : Engine κ}

theorem exists_census (h : Plays ⟨run b filter limit catalog results, ws, e⟩ T s')
    (hdone : s'.main = .done (results', .ok report)) :
    ∃ counted, IsCensus ⟨run b filter limit catalog results, ws, e⟩ s' T report counted := by
  have hgoes := h.main_reaches
  rw [hdone] at hgoes
  obtain ⟨number, began, count, t₁, t₂, s, missing, htrail, -, -, -, -, -, hended⟩ :=
    goes_run hgoes.goes_of_done
  obtain ⟨rfl, p, t₃, rfl, hreport⟩ := hended report rfl
  obtain ⟨reads, read, hreads, hids, hsummaries⟩ :=
    countsGroup_of_report List.nodup_range hreport
  obtain rfl : count = e.groups.length :=
    h.groupCount (Story.mem_of_mainTrail (htrail ▸ by simp))
  have hcounts : ∀ g < e.groups.length, CountsGroup g (reads g) (read g) T.mainTrail := by
    intro g hg
    have hpart := (hreads g (List.mem_range.mpr hg)).around
      ([⟨.attach, number⟩, ⟨.act .now, began⟩, ⟨.groupCount, e.groups.length⟩] ++ t₁)
      [⟨.detach, ()⟩]
    rw [htrail]
    simpa only [List.append_assoc] using hpart
  -- What is counted of a check is the state in the status that was read.
  have hmembers (g : Nat) : ((read g).map fun c => (c.1, c.2.state)).map Prod.fst =
      (read g).map Prod.fst := List.map_map
  have hstates (g : Nat) : ((read g).map fun c => (c.1, c.2.state)).map Prod.snd =
      (read g).map fun c => c.2.state := List.map_map
  refine ⟨fun g => (read g).map fun c => (c.1, c.2.state), ?_, ?_, ?_, ?_, ?_, ?_⟩
  · rw [hids]
    refine List.map_congr_left fun g hg => ?_
    rw [← ids_members g (reads g), ← (hcounts g (List.mem_range.mp hg)).members_eq, List.map_map,
      List.map_map]
    rfl
  · simp only [hsummaries, hstates]
  · rw [RunReport.summary_eq hsummaries, allCounted, List.map_flatMap]
    simp only [hstates]
  · intro g hg
    rw [hmembers]
    exact (hcounts g hg).between h
  · have hrefs : (allCounted e.groups.length fun g => (read g).map fun c => (c.1, c.2.state)).map
        (fun c => c.1.1) =
          ((List.range e.groups.length).flatMap fun g => members g (reads g)).map Prod.fst := by
      rw [allCounted, List.map_flatMap, List.map_flatMap]
      refine List.flatMap_congr fun g hg => ?_
      rw [← (hcounts g (List.mem_range.mp hg)).members_eq, List.map_map, List.map_map]
      rfl
    exact hrefs ▸ nodup_flatMap_members e.groups.length reads
  · intro c hc
    obtain ⟨g, hg, hc⟩ := List.mem_flatMap.mp hc
    obtain ⟨status, hstatus, rfl⟩ := List.mem_map.mp hc
    exact (hcounts g (List.mem_range.mp hg)).stoodAs h hstatus

end Census

/-- Folding the states of checks gives a summary that counts each of them in its state. The
summaries of groups are merged to that of all their checks, in whatever order. So the summary of a
report, for every engine, filter, time limit and behaviour and in every order of the steps, counts
each check that is registered when the run begins exactly once, in a state in which it has been
during the run. Apart from these it counts only checks that have been added meanwhile, each once as
well. The counts over the records add up to all records, and their suites are listed in order, each
once. -/
theorem summaries_are_faithful :
    (∀ states : List CheckState, states.length < 2 ^ 32 →
      (states.foldl Summary.add .zero).Counts states) ∧
    (∀ groups order : List (List CheckState), order.Perm groups →
      (order.map Summary.ofStates).foldl Summary.merge .zero = .ofStates groups.flatten) ∧
    (∀ s t u : Summary, s.merge t = t.merge s ∧ (s.merge t).merge u = s.merge (t.merge u)) ∧
    (∀ results : Results, (CheckState.all.map results.countState).sum = results.size ∧
      results.suites.Pairwise (· < ·) ∧
      ∀ suite, suite ∈ results.suites ↔ ∃ id record, results.get? id = some record ∧
        record.testId.suite = suite) ∧
    ∀ (κ : Type) (b : Behaviour κ) (filter : Label.Filter) (limit : Option Nat)
      (catalog : Catalog) (results results' : Results) (report : RunReport)
      (ws : List (Worker κ Unit)) (e : Engine κ) (T : Story κ) (s' : Scene κ (Results × Answer)),
      Plays ⟨run b filter limit catalog results, ws, e⟩ T s' →
      s'.main = .done (results', .ok report) →
      ∃ counted, IsCensus ⟨run b filter limit catalog results, ws, e⟩ s' T report counted ∧
        (∀ r c, e.definition? r = some c →
          ((allCounted e.groups.length counted).map fun x => x.1.1).count r = 1) ∧
        (s'.engine.size < 2 ^ 32 →
          report.summary.Counts ((allCounted e.groups.length counted).map Prod.snd) ∧
            e.size ≤ report.summary.total.toNat ∧
            report.summary.total.toNat ≤ s'.engine.size) := by
  refine ⟨fun _ => Summary.counts_ofStates, fun _ _ => Summary.merged_in_any_order,
    fun s t u => ⟨Summary.merge_comm s t, Summary.merge_assoc s t u⟩,
    fun results => ⟨results.sum_countState, results.pairwise_suites, fun _ => Results.mem_suites⟩,
    fun κ b filter limit catalog results results' report ws e T s' h hdone => ?_⟩
  obtain ⟨counted, hcensus⟩ := exists_census h hdone
  refine ⟨counted, hcensus, fun r c => hcensus.count_eq_one, fun hsize => ?_⟩
  obtain ⟨hle, hge⟩ := hcensus.size_le h.length_groups
  have hcounts : report.summary.Counts ((allCounted e.groups.length counted).map Prod.snd) := by
    rw [hcensus.whole]
    refine Summary.counts_ofStates ?_
    rw [List.length_map]
    exact Nat.lt_of_le_of_lt hge hsize
  rw [hcounts.total, List.length_map]
  exact ⟨hcounts, hle, hge⟩

/-- The check that is added to the first group while the second is run is counted too. -/
theorem summaries_are_faithful_belated :
    (Summary.mk 2 1 0 0 0 3).Counts [.passed, .failed, .passed] ∧
      ([[CheckState.failed], [.passed, .passed]].map Summary.ofStates).foldl Summary.merge .zero =
        .ofStates [.passed, .passed, .failed] ∧
      ∃ T s results report counted, Plays ⟨belatedRun, [], market.engine⟩ T s ∧
        s.main = .done (results, .ok report) ∧
        IsCensus ⟨belatedRun, [], market.engine⟩ s T report counted ∧
        ((allCounted 2 counted).map fun x => x.1.1).count ⟨1, 0⟩ = 1 ∧
        report.summary.Counts ((allCounted 2 counted).map Prod.snd) ∧
        3 ≤ report.summary.total.toNat ∧ report.summary.total.toNat ≤ 4 := by
  obtain ⟨hstates, hmerge, -, -, hruns⟩ := summaries_are_faithful
  refine ⟨hstates [.passed, .failed, .passed] (by decide),
    hmerge [[.passed, .passed], [.failed]] [[.failed], [.passed, .passed]] (.swap ..), ?_⟩
  have htold : told (Schedule.drive belatedRun [] market.engine).1 =
      some ([], [("age", .passed), ("size", .passed), ("weight", .passed)]) := by
    decide +kernel
  have hsize : (Schedule.drive belatedRun [] market.engine).2.2.size = 4 := by decide +kernel
  obtain ⟨results, report, hvalue, -, -⟩ := exists_told htold
  have hplays := Schedule.plays_story belatedRun [] market.engine hvalue
  obtain ⟨counted, hcensus, honce, htotal⟩ := hruns _ _ _ _ _ _ _ _ _ _ _ _ hplays rfl
  obtain ⟨hcounts, hle, hge⟩ := htotal (hsize ▸ by decide)
  exact ⟨_, _, results, report, counted, hplays, rfl, hcensus,
    honce ⟨1, 0⟩ (plainCheck "weight" "common") rfl, hcounts, hle, hsize ▸ hge⟩

end Conformance.Run
