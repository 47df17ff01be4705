import Conformance.Proofs.Run.Rows

/-!
The trail of a whole run, and the books that a run keeps which gives a report: the checks of each
group when it was recorded, the records that were made of them, and the checks of each group when
the report was written.
-/
namespace Conformance.Run

open Conformance.Group

variable {κ α : Type} {b : Behaviour κ} {filter : Label.Filter} {limit : Option Nat}
  {catalog : Catalog} {results results' : Results} {t : MainTrail κ} {answer : Answer}
  {report : RunReport}

theorem quiet_questions {p : Main κ α} (hp : p.Only IsQuestion) {x : Except Panic α}
    (h : p.Goes t x) : started t = [] ∧ abortOf t = none ∧ ∀ g, SparesGroup g t := by
  refine quiet_of_forall ?_
  rintro ⟨op, answer⟩ ha
  have hasks := hp.goes h _ ha
  cases op with
  | act op =>
    cases op with
    | request op =>
      cases op with
      | cursor => exact absurd hasks id
      | judge => exact absurd hasks id
      | _ => exact ⟨rfl, rfl, fun _ => rfl⟩
    | _ => exact ⟨rfl, rfl, fun _ => rfl⟩
  | spawn => exact absurd hasks id
  | await => exact absurd hasks id
  | _ => exact ⟨rfl, rfl, fun _ => rfl⟩

/-- The trail of a run: what comes before its groups, their trail, and what comes after them. -/
theorem goes_run (h : (run b filter limit catalog results).Goes t (.ok (results', answer))) :
    ∃ number began count t₁ t₂ s missing,
      t = [⟨.attach, number⟩, ⟨.act .now, began⟩, ⟨.groupCount, count⟩] ++ (t₁ ++ t₂) ∧
      (runGroups ⟨b, number, filter, limit.map (began + ·), catalog⟩ ⟨none, [], 0, results⟩
        (List.range count)).Goes t₁ (.ok (s, missing)) ∧
      results' = s.results ∧ started t₂ = [] ∧ abortOf t₂ = none ∧ (∀ g, SparesGroup g t₂) ∧
      ∀ report, answer = .ok report → missing = none ∧ ∃ p t₃, t₂ = t₃ ++ [⟨.detach, ()⟩] ∧
        (Run.report p s began (List.range count)).Goes t₃ (.ok report) := by
  obtain ⟨number, t, rfl, hattached⟩ := Prog.goes_request_bind h
  obtain ⟨began, t, rfl, hbegan⟩ := Prog.goes_request_bind hattached
  obtain ⟨count, t, rfl, hcounted⟩ := Prog.goes_request_bind hbegan
  obtain ⟨t₁, t₂, ⟨s, missing⟩, rfl, hgroups, hrest⟩ := Prog.goes_bind_ok hcounted
  refine ⟨number, began, count, t₁, t₂, s, missing, rfl, hgroups, ?_⟩
  cases missing with
  | some missing =>
    obtain ⟨_, t₃, rfl, hdone⟩ := Prog.goes_request_bind hrest
    obtain ⟨rfl, hvalue⟩ := Prog.goes_done hdone
    cases hvalue
    exact ⟨rfl, rfl, rfl, fun _ _ _ => rfl, nofun⟩
  | none =>
    obtain ⟨t₃, t₄, reported, rfl, hreport, hlast⟩ := Prog.goes_bind_ok hrest
    obtain ⟨_, t₅, rfl, hdone⟩ := Prog.goes_request_bind hlast
    obtain ⟨rfl, hvalue⟩ := Prog.goes_done hdone
    cases hvalue
    obtain ⟨hstarted, hmarks, hspares⟩ := quiet_questions (questions_report _ _ _ _) hreport
    refine ⟨rfl, ?_, ?_, fun g => (hspares g).append fun _ _ => rfl, ?_⟩
    · rw [started_append, hstarted]
      rfl
    · rw [abortOf_append, hmarks]
      rfl
    · rintro r hr
      cases hr
      exact ⟨rfl, _, t₃, rfl, hreport⟩

/-- What a run has written down that gives a report. -/
structure Books (catalog : Catalog) (results : Results) (t : MainTrail κ) (report : RunReport) where
  count : Nat
  recorded : Nat → List (Check κ)
  reported : Nat → List (Check κ)
  rows : List (Member κ × Record)
  earlier : MainTrail κ
  later : MainTrail κ
  trail_eq : t = earlier ++ later
  count_mem : ⟨.groupCount, count⟩ ∈ t
  recorded_mem : ∀ g < count, ⟨.act (.request (.checks g)), recorded g⟩ ∈ earlier
  reported_mem : ∀ g < count, ⟨.act (.request (.checks g)), reported g⟩ ∈ later
  members_eq : rows.map Prod.fst = (List.range count).flatMap fun g => members g (recorded g)
  isRecord : ∀ row ∈ rows, IsRecord catalog t row.1 row.2
  results_eq : report.results = results.insertAll (keyed rows)
  checkIds_eq : report.groups.map GroupReport.checkIds =
    (List.range count).map fun g => (reported g).map Check.id

theorem Books.read (books : Books catalog results t report) {g : Nat} (hg : g < books.count) :
    ⟨.act (.request (.checks g)), books.recorded g⟩ ∈ t := by
  have hpart : books.earlier ⊆ t := by
    conv_rhs => rw [books.trail_eq]
    exact List.subset_append_left _ _
  exact hpart (books.recorded_mem g hg)

/-- A run that gives a report has recorded all the checks that it was told of. -/
theorem nonempty_books
    (h : (run b filter limit catalog results).Goes t (.ok (results', .ok report))) :
    Nonempty (Books catalog results t report) := by
  obtain ⟨number, began, count, t₁, t₂, s, missing, rfl, hgroups, -, -, -, -, hended⟩ := goes_run h
  obtain ⟨rfl, p, t₃, rfl, hreport⟩ := hended report rfl
  obtain ⟨recorded, rows, hrecorded, hresults⟩ := exists_rows List.nodup_range hgroups
  obtain ⟨reported, counted, hreported, hids, -⟩ :=
    exists_reads_of_report List.nodup_range hreport
  have hmiddle : t₁ <:+: [⟨.attach, number⟩, ⟨.act .now, began⟩, ⟨.groupCount, count⟩] ++
      (t₁ ++ (t₃ ++ [⟨.detach, ()⟩])) := ⟨_, _, List.append_assoc ..⟩
  exact ⟨{
    count := count
    recorded := recorded
    reported := reported
    rows := (List.range count).flatMap rows
    earlier := [⟨.attach, number⟩, ⟨.act .now, began⟩, ⟨.groupCount, count⟩] ++ t₁
    later := t₃ ++ [⟨.detach, ()⟩]
    trail_eq := (List.append_assoc ..).symm
    count_mem := by simp
    recorded_mem := fun g hg =>
      List.mem_append_right _ (hrecorded g (List.mem_range.mpr hg)).1
    reported_mem := fun g hg =>
      List.mem_append_left _ (hreported g (List.mem_range.mpr hg)).1
    members_eq := by
      rw [List.map_flatMap]
      exact List.flatMap_congr fun g hg => (hrecorded g hg).2.1
    isRecord := fun row hrow => by
      obtain ⟨g, hg, hrow⟩ := List.mem_flatMap.mp hrow
      exact ((hrecorded g hg).2.2 row hrow).isRecord.mono hmiddle
    results_eq := (goes_report hreport).1.trans hresults
    checkIds_eq := hids }⟩

end Conformance.Run
