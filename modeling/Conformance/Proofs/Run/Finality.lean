import Conformance.Proofs.Group.Parts
import Conformance.Proofs.Run.Books
import Conformance.Proofs.Run.Passing

/-!
Aborts are final. Once a run has been aborted at a group, no callback of a later group is called in
that run, whatever the workers that are still at work do, the reason of the first abort is the one
that is reported, and all checks are recorded, those of the groups that were not run as well.
-/
namespace Conformance.Run

open Conformance.Group Scene

variable {κ α : Type} {b : Behaviour κ} {filter : Label.Filter} {limit : Option Nat}
  {catalog : Catalog} {results results' : Results}

section Aborts

variable {t : MainTrail κ} {answer : Answer}

/-- The reason of the first abort is the one that is reported. The groups after this abort are not
started, and the checks of each of them are labelled once, with this reason. -/
theorem abort_of_run (h : (run b filter limit catalog results).Goes t (.ok (results', answer))) :
    (∀ report, answer = .ok report → report.abortReason = (abortOf t).map Prod.snd) ∧
      ∀ k reason, abortOf t = some (k, reason) → (∀ g ∈ started t, g ≤ k) ∧
        ∀ report, answer = .ok report → ∃ count, ⟨.groupCount, count⟩ ∈ t ∧
          ∀ g < count, k < g → LabelledOnce filter g reason t := by
  obtain ⟨number, began, count, t₁, t₂, s, missing, rfl, hgroups, -, hstarted, hmarks, hspares,
    hreport⟩ := goes_run h
  have hended : ∀ report, answer = .ok report → missing = none ∧ report.abortReason = s.abort := by
    intro r hr
    obtain ⟨hmissing, p, t₃, -, hlast⟩ := hreport r hr
    exact ⟨hmissing, (goes_report hlast).2.2⟩
  rw [List.range_eq_range'] at hgroups
  obtain ⟨hreported, hdecided⟩ := abort_of_goes hgroups rfl
  have hmark : abortOf ([⟨.attach, number⟩, ⟨.act .now, began⟩, ⟨.groupCount, count⟩] ++
      (t₁ ++ t₂)) = abortOf t₁ := by
    rw [abortOf_append, abortOf_append, hmarks, Option.or_none]
    rfl
  rw [hmark]
  refine ⟨fun r hr => ?_, fun k reason hk => ?_⟩
  · rw [(hended r hr).2, hreported]
  · obtain ⟨-, hbefore, hlabelled⟩ := hdecided k reason hk
    refine ⟨?_, fun r hr => ⟨count, by simp, fun g hg hlt => ?_⟩⟩
    · rw [started_append, started_append, hstarted, List.append_nil]
      exact hbefore
    · have honce := hlabelled (hended r hr).1 g (List.mem_range'_1.mpr (by omega)) hlt
      exact (honce.append (hspares g)).prepend fun _ _ => rfl

theorem nonempty_resp (op : Move κ) : Nonempty op.Resp := by
  cases op with
  | act op =>
    cases op with
    | request op => cases op <;> exact ⟨default⟩
    | hooks => exact ⟨Hooks.none⟩
    | _ => exact ⟨default⟩
  | await => exact ⟨.abort timeoutReason⟩
  | _ => exact ⟨default⟩

/-- Whatever a run that has been aborted goes on to do, it starts no group after that. -/
theorem started_le_of_reaches {q : Main κ (Results × Answer)}
    (h : (run b filter limit catalog results).Reaches t q) {k : Nat} {reason : String}
    (habort : abortOf t = some (k, reason)) {g : Nat} (hg : g ∈ started t) : g ≤ k := by
  obtain ⟨u, x, hgoes⟩ := h.exists_goes nonempty_resp
  obtain ⟨⟨results', answer⟩, rfl⟩ := (neverPanics_run b filter limit catalog results).goes hgoes
  have hmark : abortOf (t ++ u) = some (k, reason) := by
    rw [abortOf_append, habort, Option.some_or]
  refine ((abort_of_run hgoes).2 k reason hmark).1 g ?_
  rw [started_append]
  exact List.mem_append_left _ hg

end Aborts

section Workers

/-- The worker of a group calls callbacks of this group only. -/
theorem enters_worker (b : Behaviour κ) (run g : Nat) (filter : Label.Filter) (token : Nat) :
    (worker b run g filter token).Only fun op => ∀ call, op = .enter call → call.group = g := by
  have hcallbacks : Allows (fun op => ∀ call, op = .enter call → call.group = g) b g token := by
    refine ⟨?_, fun callback call _ => ?_, fun callback call _ => ?_⟩
    · rintro _ hpart call rfl
      exact hpart
    · exact Prog.only_lift (fun _ _ hop => by cases hop) _
    · exact Prog.only_lift (fun _ _ hop => by cases hop) _
  refine (Prog.only_request nofun).bind fun name => ?_
  refine (hcallbacks.only_run filter _).guarded.bind fun result => ?_
  exact Prog.only_request nofun

variable {s' : Scene κ (Results × Answer)} {T : Story κ}
  {ws : List (Worker κ Unit)} {e : Engine κ}

/-- Whoever takes a step among the workers was there from the beginning, or is the worker of a group
that was started. -/
theorem worker_of_plays (h : Plays ⟨run b filter limit catalog results, ws, e⟩ T s') {i : Nat}
    (hi : ws.length ≤ i) {a : Prog.Exchange (@Action.Resp κ)} (ha : Event.worker i a ∈ T) :
    ∃ number g token, g ∈ started T.mainTrail ∧
      (ws ++ T.spawned)[i]? = some (worker b number g filter token) := by
  obtain ⟨w, q, hw, -⟩ := h.reaches_of_mem ha
  have hspawned : w ∈ T.spawned := by
    rw [List.getElem?_append_right hi] at hw
    exact List.mem_of_getElem? hw
  obtain ⟨ev, hev, hspawn⟩ := List.mem_filterMap.mp hspawned
  cases ev with
  | worker => cases hspawn
  | outside => cases hspawn
  | main b' =>
    obtain ⟨op, answer⟩ := b'
    cases op with
    | spawn g v =>
      cases hspawn
      have hmem := Story.mem_mainTrail hev
      obtain ⟨number, token, rfl⟩ :=
        (mainly_run b filter limit catalog results).reaches h.main_reaches _ hmem
      exact ⟨number, g, token, List.mem_filterMap.mpr ⟨_, hmem, rfl⟩, hw⟩
    | _ => cases hspawn

theorem group_le_of_enter (h : Plays ⟨run b filter limit catalog results, ws, e⟩ T s') {k : Nat}
    {reason : String} (habort : abortOf T.mainTrail = some (k, reason)) {i : Nat}
    (hi : ws.length ≤ i) {call : Call} (hcall : Event.worker i ⟨.enter call, ()⟩ ∈ T) :
    call.group ≤ k := by
  obtain ⟨number, g, token, hg, hw⟩ := worker_of_plays h hi hcall
  obtain ⟨w, q, hw', hreaches⟩ := h.reaches_of_mem hcall
  cases hw.symm.trans hw'
  rw [(enters_worker b number g filter token).reaches hreaches _
    (Story.mem_workerTrail hcall) call rfl]
  exact started_le_of_reaches h.main_reaches habort hg

end Workers

section Whole

variable {s' : Scene κ (Results × Answer)} {T : Story κ}
  {ws : List (Worker κ Unit)} {e : Engine κ}

/-- A check that was registered before the run is recorded in it. -/
theorem Books.mem_rows {report : RunReport} (books : Books catalog results T.mainTrail report)
    (h : Plays ⟨run b filter limit catalog results, ws, e⟩ T s') {r : CheckRef} {c : Check κ}
    (hthere : e.definition? r = some c) : (r, c) ∈ books.rows.map Prod.fst := by
  have hcount := h.groupCount (Story.mem_of_mainTrail books.count_mem)
  have hg : r.group < books.count := by
    rw [hcount]
    exact Engine.lt_of_definition? hthere
  rw [books.members_eq]
  refine List.mem_flatMap.mpr ⟨r.group, List.mem_range.mpr hg, ?_⟩
  exact mem_members_of_read h (Story.mem_of_mainTrail (books.read hg)) rfl hthere rfl

theorem nonempty_books_of_plays (h : Plays ⟨run b filter limit catalog results, ws, e⟩ T s')
    {report : RunReport} (hdone : s'.main = .done (results', .ok report)) :
    Nonempty (Books catalog results T.mainTrail report) := by
  have hgoes := h.main_reaches
  rw [hdone] at hgoes
  exact nonempty_books hgoes.goes_of_done

/-- A check that was registered before the run is recorded in it, and there is a record of it, or of
another check with its id, in the report. -/
theorem recorded_of_run (h : Plays ⟨run b filter limit catalog results, ws, e⟩ T s')
    {report : RunReport} (hdone : s'.main = .done (results', .ok report)) {r : CheckRef}
    {c : Check κ} (hthere : e.definition? r = some c) :
    (∃ record, IsRecord catalog T.mainTrail (r, c) record) ∧
      ∃ m record, m.2.id = c.id ∧ IsRecord catalog T.mainTrail m record ∧
        report.results.get? c.id = some record := by
  obtain ⟨books⟩ := nonempty_books_of_plays h hdone
  obtain ⟨⟨m, record⟩, hrow, hsame⟩ := List.mem_map.mp (books.mem_rows h hthere)
  obtain rfl : m = (r, c) := hsame
  refine ⟨⟨record, books.isRecord _ hrow⟩, ?_⟩
  have hkeyed : ∃ a ∈ keyed books.rows, a.1 = c.id := ⟨_, List.mem_map_of_mem hrow, rfl⟩
  obtain ⟨a, ha, hkey, hvalue⟩ := results.exists_get?_insertAll hkeyed
  obtain ⟨row, hrow', rfl⟩ := List.mem_map.mp ha
  exact ⟨row.1, row.2, hkey, books.isRecord row hrow', books.results_eq ▸ hvalue⟩

/-- From every engine, whatever ran on it before, for every filter, time limit and behaviour, and in
whatever order the run, its workers, leftover workers of earlier runs, those who interrupt it and
the deadline take their steps: when the run has been aborted at a group, no callback of a later
group is called in this run, at any time. The reason of the first abort is the one in the report,
and all checks that were registered before the run are recorded, unless the run gives no report
because a check has no catalog entry. -/
theorem abort_is_final (h : Plays ⟨run b filter limit catalog results, ws, e⟩ T s') {k : Nat}
    {reason : String} (habort : abortOf T.mainTrail = some (k, reason)) :
    (∀ i call, ws.length ≤ i → Event.worker i ⟨.enter call, ()⟩ ∈ T → call.group ≤ k) ∧
      ∀ results' answer, s'.main = .done (results', answer) → ∀ report, answer = .ok report →
        report.abortReason = some reason ∧ ∀ r c, e.definition? r = some c →
          (∃ record, IsRecord catalog T.mainTrail (r, c) record) ∧
          ∃ m record, m.2.id = c.id ∧ IsRecord catalog T.mainTrail m record ∧
            report.results.get? c.id = some record := by
  refine ⟨fun i call hi hcall => group_le_of_enter h habort hi hcall, ?_⟩
  rintro results' _ hdone report rfl
  refine ⟨?_, fun r c hthere => recorded_of_run h hdone hthere⟩
  have hgoes := h.main_reaches
  rw [hdone] at hgoes
  rw [(abort_of_run hgoes.goes_of_done).1 report rfl, habort]
  rfl

end Whole

section Market

/-- The body of the first check asks for an abort, and waits for the end of the run. -/
def fleeing : Behaviour Unit where
  act _ call :=
    match call with
    | .body ⟨0, 0⟩ => do
      let _ ← Callback.ask (.abort ⟨0, 0⟩ "gone")
      Callback.ask .pause
      return .ok ()
    | _ => .done (.ok ())
  excuse _ _ := .done none

/-- The second group is not run, and its check is recorded nevertheless. -/
theorem abort_is_final_market :
    ∃ T s results report, Plays ⟨marketRun fleeing, [], market.engine⟩ T s ∧
      abortOf T.mainTrail = some (0, "age called abort: gone") ∧
      s.main = .done (results, .ok report) ∧
      report.abortReason = some "age called abort: gone" ∧
      (∀ i call, Event.worker i ⟨.enter call, ()⟩ ∈ T → call.group ≤ 0) ∧
      ∃ record, IsRecord market.catalog T.mainTrail (⟨1, 0⟩, plainCheck "weight" "common") record
        := by
  have htold : told (Schedule.drive (marketRun fleeing) [] market.engine).1 =
      some ([], [("age", .aborted), ("size", .skipped), ("weight", .skipped)]) := by
    decide +kernel
  have habort : abortOf (Schedule.story (marketRun fleeing) [] market.engine).mainTrail =
      some (0, "age called abort: gone") := by decide +kernel
  obtain ⟨results, report, hvalue, -, -⟩ := exists_told htold
  have hplays := Schedule.plays_story (marketRun fleeing) [] market.engine hvalue
  obtain ⟨hnone, hfinal⟩ := abort_is_final hplays habort
  obtain ⟨hreason, hrecorded⟩ := hfinal _ _ rfl report rfl
  obtain ⟨hrecord, -⟩ := hrecorded ⟨1, 0⟩ (plainCheck "weight" "common") rfl
  exact ⟨_, _, results, report, hplays, habort, rfl, hreason,
    fun i call hcall => hnone i call (Nat.zero_le i) hcall, hrecord⟩

end Market

end Conformance.Run
