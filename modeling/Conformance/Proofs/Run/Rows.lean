import Conformance.Proofs.Run.Records

/-!
What the thread that runs all groups asks for, told from its trail. The groups follow one another
in a row. Each of them is labelled for an abort, or was waited for up to its completion, and is
recorded right after that. A stop token is set only on the way to an abort, after which no group is
run any more.
-/
namespace Conformance.Run

open Conformance.Group

variable {κ α : Type}

section Group

/-- No stop token is set on the trail. -/
def StopsNobody (t : MainTrail κ) : Prop := ∀ token, ⟨.act (.setToken token), ()⟩ ∉ t

theorem StopsNobody.append {t u : MainTrail κ} (ht : StopsNobody t) (hu : StopsNobody u) :
    StopsNobody (t ++ u) := by
  intro token hmem
  rcases List.mem_append.mp hmem with hmem | hmem
  · exact ht token hmem
  · exact hu token hmem

theorem stopsNobody_embedded (u : List (Prog.Exchange (@Request.Resp κ))) :
    StopsNobody (u.map embedded) := by
  intro token hmem
  obtain ⟨a, -, ha⟩ := List.mem_map.mp hmem
  cases ha

/-- How a group has ended: its checks were labelled for an abort by the cursor that was read, or its
worker was waited for up to its completion. -/
inductive GroupTrail (p : Plan κ) (g : Nat) (s : Progress) : MainTrail κ → Progress → Prop
  | labelled {before after : MainTrail κ} {reason : String} {cursor : Option Nat}
      {checks : List (Check κ)} (hlabels : ∀ l ∈ labels p.filter reason cursor 0 (members g checks),
        ⟨.act (.request (.judge l.1 l.2)), ()⟩ ∈ after) :
      GroupTrail p g s (before ++ ⟨.act (.request (.cursor g)), cursor⟩ ::
        ⟨.act (.request (.checks g)), checks⟩ :: after) { s with abort := some reason }
  | done {time token : Nat} {outcome : Outcome} (hnone : s.abort = none) :
      GroupTrail p g s [⟨.act .now, time⟩, ⟨.act (.newToken g), token⟩,
        ⟨.spawn g (worker p.behaviour p.run g p.filter token), ()⟩,
        ⟨.await g p.deadline, .done outcome⟩]
        { s with errors := s.errors ++ outcome.errors, failed := s.failed + outcome.failed }

variable {p : Plan κ} {g : Nat} {s s' : Progress} {t : MainTrail κ}

theorem groupTrail_of_labelTrail {reason : String} (before : MainTrail κ) (cursor : Option Nat)
    (checks : List (Check κ)) :
    GroupTrail p g s (before ++ labelTrail p.filter g reason cursor checks)
      { s with abort := some reason } := by
  refine .labelled fun l hl => ?_
  exact List.mem_map.mpr ⟨l, hl, rfl⟩

theorem Visit.groupTrail (h : Visit p g s t s') : GroupTrail p g s t s' := by
  obtain ⟨abort, errors, failed, results⟩ := s
  cases h with
  | @left time reason cursor checks habort =>
    obtain rfl : abort = some reason := habort
    exact groupTrail_of_labelTrail [⟨.act .now, time⟩] cursor checks
  | @expired time cursor checks =>
    exact groupTrail_of_labelTrail [⟨.act .now, time⟩] cursor checks
  | @interrupted time token reason cursor checks =>
    exact groupTrail_of_labelTrail [⟨.act .now, time⟩, ⟨.act (.newToken g), token⟩,
      ⟨.spawn g (worker p.behaviour p.run g p.filter token), ()⟩,
      ⟨.await g p.deadline, .abort reason⟩, ⟨.act (.setToken token), ()⟩] cursor checks
  | completed hnone => exact .done hnone

/-- What has come in up to a point of a run is there at a later one. -/
structure Progress.Within (s s' : Progress) : Prop where
  errors : s.errors ⊆ s'.errors
  failed : s.failed ≤ s'.failed
  abort : s'.abort = none → s.abort = none

theorem Progress.Within.refl (s : Progress) : s.Within s :=
  ⟨List.Subset.refl _, Nat.le_refl _, id⟩

theorem Progress.Within.trans {s₁ : Progress} (h : s.Within s₁) (h' : s₁.Within s') :
    s.Within s' :=
  ⟨List.Subset.trans h.errors h'.errors, h.failed.trans h'.failed, h.abort ∘ h'.abort⟩

theorem GroupTrail.within (h : GroupTrail p g s t s') : s.Within s' := by
  cases h with
  | labelled => exact ⟨List.Subset.refl _, Nat.le_refl _, nofun⟩
  | done => exact ⟨List.subset_append_left _ _, Nat.le_add_right _ _, id⟩

/-- A group without an abort sets no stop token and judges no check. -/
theorem GroupTrail.unbroken (h : GroupTrail p g s t s') (hs : s'.abort = none) :
    StopsNobody t ∧ ∀ i, SparesGroup i t := by
  cases h with
  | labelled => cases hs
  | done => exact ⟨fun token hmem => by simp at hmem, fun _ _ _ => rfl⟩

end Group

section Recording

/-- The trail records a check of the group as this entry: the checks are read, and later on the
status of this one. -/
def IsRecordOf (g : Nat) (entry : String × Record) (t : MainTrail κ) : Prop :=
  ∃ checks m status u, t = ⟨.act (.request (.checks g)), checks⟩ :: u ∧ m ∈ members g checks ∧
    m.2.id = entry.1 ∧ ⟨.act (.request (.status m.1)), status⟩ ∈ u ∧
    status.state = entry.2.state

/-- The trail reads the checks of the group, and none of them has this id. -/
def LacksId (g : Nat) (id : String) (t : MainTrail κ) : Prop :=
  ∃ checks, ⟨.act (.request (.checks g)), checks⟩ ∈ t ∧ ∀ m ∈ members g checks, m.2.id ≠ id

theorem LacksId.mono {g : Nat} {id : String} {t u : MainTrail κ} (h : LacksId g id t)
    (htu : t ⊆ u) : LacksId g id u := by
  obtain ⟨checks, hread, hothers⟩ := h
  exact ⟨checks, htu hread, hothers⟩

theorem isRecordOf_of_goes {catalog : Catalog} {results results' : Results} {g : Nat}
    {missing : Option Catalog.MissingEntry} {t : MainTrail κ}
    (h : (ofCallback (Recording.recordGroup catalog results g)).Goes t (.ok (results', missing))) :
    StopsNobody t ∧ ∀ entry ∈ results'.entries,
      (entry ∈ results.entries ∧ (missing = none → LacksId g entry.1 t)) ∨
        IsRecordOf g entry t := by
  have hstops : StopsNobody t := by
    obtain ⟨u, -, rfl⟩ := goes_ofCallback h
    exact stopsNobody_embedded u
  obtain ⟨checks, u, rows, rfl, rfl, hrows, hmembers, hall⟩ := goes_recordGroup h
  refine ⟨hstops, fun entry hentry => ?_⟩
  rcases Keyed.mem_insertAll hentry with hnew | ⟨hold, hother⟩
  · obtain ⟨row, hrow, rfl⟩ := List.mem_map.mp hnew
    obtain ⟨found, before, status, log, -, hwithin, htells⟩ := hrows row hrow
    exact .inr ⟨checks, row.1, before, u, rfl, hmembers.subset (List.mem_map_of_mem hrow), rfl,
      hwithin.subset List.mem_cons_self, htells.state.symm⟩
  · refine .inl ⟨hold, fun hnone => ⟨checks, List.mem_cons_self, fun m hm hid => ?_⟩⟩
    rw [← hall hnone] at hm
    obtain ⟨row, hrow, rfl⟩ := List.mem_map.mp hm
    exact hother _ (List.mem_map_of_mem hrow) hid

end Recording

section Rows

variable {p : Plan κ} {gs : List Nat} {s s' : Progress} {missing : Option Catalog.MissingEntry}
  {t : MainTrail κ}

/-- A group and its recording within the trail of a run of all groups. -/
structure Row (p : Plan κ) (s s' : Progress) (entry : String × Record) (t : MainTrail κ) where
  group : Nat
  earlier : MainTrail κ
  trail : MainTrail κ
  recording : MainTrail κ
  later : MainTrail κ
  start : Progress
  ended : Progress
  trail_eq : t = earlier ++ (trail ++ (recording ++ later))
  groupTrail : GroupTrail p group start trail ended
  isRecordOf : IsRecordOf group entry recording
  within : ended.Within s'
  unbroken : start.abort = none → s.abort = none ∧ StopsNobody earlier

theorem Progress.Within.of_recorded {results : Results}
    (h : Progress.Within { s with results := results } s') : s.Within s' :=
  ⟨h.errors, h.failed, h.abort⟩

theorem within_of_runGroups (h : (runGroups p s gs).Goes t (.ok (s', missing))) :
    s.Within s' := by
  induction gs generalizing s t with
  | nil =>
    cases (Prog.goes_done h).2
    exact .refl _
  | cons g gs ih =>
    obtain ⟨t₁, t₂, t₃, s₁, results, first, rfl, hvisit, -, hend⟩ := goes_runGroups_cons h
    refine hvisit.groupTrail.within.trans ?_
    rcases hend with ⟨-, -, rfl, -⟩ | ⟨-, hlater⟩
    · exact .of_recorded (.refl _)
    · exact (ih hlater).of_recorded

/-- A run that is not aborted sets no stop token and judges no check. -/
theorem unbroken_of_runGroups (h : (runGroups p s gs).Goes t (.ok (s', missing)))
    (hnone : s'.abort = none) : StopsNobody t ∧ ∀ i, SparesGroup i t := by
  induction gs generalizing s t with
  | nil =>
    rw [(Prog.goes_done h).1]
    exact ⟨fun _ => List.not_mem_nil, sparesGroup_nil⟩
  | cons g gs ih =>
    obtain ⟨t₁, t₂, t₃, s₁, results, first, rfl, hvisit, hrecord, hend⟩ := goes_runGroups_cons h
    obtain ⟨-, -, hspares⟩ := quiet_recordGroup hrecord
    have hstops := (isRecordOf_of_goes hrecord).1
    have hend' : s₁.abort = none ∧ StopsNobody t₃ ∧ ∀ i, SparesGroup i t₃ := by
      rcases hend with ⟨-, -, rfl, rfl⟩ | ⟨-, hlater⟩
      · exact ⟨hnone, fun _ => List.not_mem_nil, sparesGroup_nil⟩
      · exact ⟨(within_of_runGroups hlater).abort hnone, ih hlater⟩
    obtain ⟨hgoing, hstops', hspares'⟩ := hend'
    obtain ⟨hstops₁, hspares₁⟩ := hvisit.groupTrail.unbroken hgoing
    exact ⟨hstops₁.append (hstops.append hstops'),
      fun i => (hspares₁ i).append ((hspares i).append (hspares' i))⟩

/-- Every entry is the record of a check of a group that has just ended, or an old one. If the run
was not cut short, none of the checks that it has recorded has the id of an old entry. -/
theorem exists_row (h : (runGroups p s gs).Goes t (.ok (s', missing))) {entry : String × Record}
    (hentry : entry ∈ s'.results.entries) :
    (entry ∈ s.results.entries ∧ (missing = none → ∀ g ∈ gs, LacksId g entry.1 t)) ∨
      Nonempty (Row p s s' entry t) := by
  induction gs generalizing s t with
  | nil =>
    cases (Prog.goes_done h).2
    exact .inl ⟨hentry, fun _ => List.forall_mem_nil _⟩
  | cons g gs ih =>
    obtain ⟨t₁, t₂, t₃, s₁, results, first, rfl, hvisit, hrecord, hend⟩ := goes_runGroups_cons h
    have hgroup := hvisit.groupTrail
    obtain ⟨hquiet, hrecorded⟩ := isRecordOf_of_goes hrecord
    have hwithin : s₁.Within s' := by
      rcases hend with ⟨-, -, rfl, -⟩ | ⟨-, hlater⟩
      · exact .of_recorded (.refl _)
      · exact (within_of_runGroups hlater).of_recorded
    -- The entry has a row further on, or it was there when the first group had been recorded.
    have hthere : (entry ∈ results.entries ∧ (missing = none → first = none ∧
          ∀ g ∈ gs, LacksId g entry.1 t₃)) ∨
        Nonempty (Row p { s₁ with results := results } s' entry t₃) := by
      rcases hend with ⟨hmissing, rfl, rfl, -⟩ | ⟨hnone, hlater⟩
      · exact .inl ⟨hentry, fun hnone => absurd hnone hmissing⟩
      · exact (ih hlater).imp_left fun hold => ⟨hold.1, fun hwhole => ⟨hnone, hold.2 hwhole⟩⟩
    rcases hthere with ⟨hnew, hlater⟩ | ⟨⟨row⟩⟩
    · rcases hrecorded entry hnew with ⟨hold, hothers⟩ | hrecord
      · rw [hvisit.results_eq] at hold
        refine .inl ⟨hold, fun hnone => List.forall_mem_cons.mpr ⟨?_, fun g' hg' => ?_⟩⟩
        · exact (hothers (hlater hnone).1).mono
            (List.Subset.trans (List.subset_append_left t₂ t₃) (List.subset_append_right t₁ _))
        · exact ((hlater hnone).2 g' hg').mono (infix_last t₁ t₂ t₃).subset
      · refine .inr ⟨⟨g, [], t₁, t₂, t₃, s, s₁, rfl, hgroup, hrecord, hwithin, ?_⟩⟩
        exact fun hnone => ⟨hnone, nofun⟩
    · refine .inr ⟨{ row with
        earlier := t₁ ++ (t₂ ++ row.earlier)
        trail_eq := by simp only [row.trail_eq, List.append_assoc]
        unbroken := ?_ }⟩
      intro hnone
      obtain ⟨hafter, hearlier⟩ := row.unbroken hnone
      obtain ⟨hstops, -⟩ := hgroup.unbroken hafter
      exact ⟨hgroup.within.abort hafter, hstops.append (hquiet.append hearlier)⟩

end Rows

section Whole

/-- What a run answers with. -/
abbrev Answer : Type := Except Catalog.MissingEntry RunReport

variable {b : Behaviour κ} {filter : Label.Filter} {limit : Option Nat} {catalog : Catalog}
  {results results' : Results} {report : RunReport} {t : MainTrail κ}

theorem goes_report {p : Plan κ} {s : Progress} {began : Nat} {groups : List Nat}
    (h : (Run.report p s began groups).Goes t (.ok report)) :
    report.results = s.results ∧ report.errors = s.errors.map GroupError.text ∧
      report.abortReason = s.abort := by
  obtain ⟨t₁, t₂, reports, rfl, -, hrest⟩ := Prog.goes_bind_ok h
  obtain ⟨ended, t₃, rfl, hdone⟩ := Prog.goes_request_bind hrest
  cases (Prog.goes_done hdone).2
  exact ⟨rfl, rfl, rfl⟩

theorem goes_statesOf {ms : List (Member κ)} {states : List CheckState}
    (h : (statesOf ms).Goes t (.ok states)) :
    ∃ counted : List (Member κ × Status), counted.map Prod.fst = ms ∧
      states = counted.map (·.2.state) ∧
      ∀ c ∈ counted, ⟨.act (.request (.status c.1.1)), c.2⟩ ∈ t := by
  induction ms generalizing t states with
  | nil =>
    cases (Prog.goes_done h).2
    exact ⟨[], rfl, rfl, List.forall_mem_nil _⟩
  | cons m rest ih =>
    obtain ⟨status, t, rfl, hseen⟩ := Prog.goes_request_bind h
    obtain ⟨t, u, later, rfl, hlater, hdone⟩ := Prog.goes_bind_ok hseen
    cases (Prog.goes_done hdone).2
    obtain ⟨counted, rfl, rfl, hcounted⟩ := ih hlater
    refine ⟨(m, status) :: counted, rfl, rfl, List.forall_mem_cons.mpr ⟨?_, fun c hc => ?_⟩⟩
    · exact List.mem_cons_self
    · exact List.mem_cons_of_mem _ (List.mem_append_left _ (hcounted c hc))

/-- On the trail the checks of the group are read, and after that each of them. -/
structure CountsGroup (g : Nat) (checks : List (Check κ)) (counted : List (Member κ × Status))
    (t : MainTrail κ) : Prop where
  members_eq : counted.map Prod.fst = members g checks
  order : ∃ before after, t = before ++ ⟨.act (.request (.checks g)), checks⟩ :: after ∧
    ∀ c ∈ counted, ⟨.act (.request (.status c.1.1)), c.2⟩ ∈ after

theorem CountsGroup.around {g : Nat} {checks : List (Check κ)} {counted : List (Member κ × Status)}
    (h : CountsGroup g checks counted t) (u v : MainTrail κ) :
    CountsGroup g checks counted (u ++ t ++ v) := by
  obtain ⟨before, after, rfl, hafter⟩ := h.order
  refine ⟨h.members_eq, u ++ before, after ++ v, ?_, fun c hc => ?_⟩
  · simp only [List.append_assoc, List.cons_append]
  · exact List.mem_append_left _ (hafter c hc)

/-- The report lists the checks that it was told of when the run was at its end, and counts them in
the states that they were in then. -/
theorem countsGroup_of_report {p : Plan κ} {s : Progress} {began : Nat} {groups : List Nat}
    (hgroups : groups.Nodup) (h : (Run.report p s began groups).Goes t (.ok report)) :
    ∃ (reads : Nat → List (Check κ)) (counted : Nat → List (Member κ × Status)),
      (∀ g ∈ groups, CountsGroup g (reads g) (counted g) t) ∧
      report.groups.map GroupReport.checkIds = groups.map (fun g => (reads g).map Check.id) ∧
      report.groups.map GroupReport.summary =
        groups.map fun g => .ofStates ((counted g).map (·.2.state)) := by
  obtain ⟨t₁, t₂, reports, rfl, hreports, hrest⟩ := Prog.goes_bind_ok h
  obtain ⟨ended, t₃, rfl, hdone⟩ := Prog.goes_request_bind hrest
  cases (Prog.goes_done hdone).2
  have hall : ∃ (reads : Nat → List (Check κ)) (counted : Nat → List (Member κ × Status)),
      (∀ g ∈ groups, CountsGroup g (reads g) (counted g) t₁) ∧
      reports.map GroupReport.checkIds = groups.map (fun g => (reads g).map Check.id) ∧
      reports.map GroupReport.summary =
        groups.map fun g => .ofStates ((counted g).map (·.2.state)) := by
    clear h hrest hdone
    induction groups generalizing t₁ reports with
    | nil =>
      cases (Prog.goes_done hreports).2
      exact ⟨fun _ => [], fun _ => [], List.forall_mem_nil _, rfl, rfl⟩
    | cons g gs ih =>
      obtain ⟨hg, hgs⟩ := List.nodup_cons.mp hgroups
      obtain ⟨u, v, first, rfl, hfirst, hothers⟩ := Prog.goes_bind_ok hreports
      obtain ⟨v, w, later, rfl, hlater, hlast⟩ := Prog.goes_bind_ok hothers
      cases (Prog.goes_done hlast).2
      obtain ⟨name, u, rfl, hnamed⟩ := Prog.goes_request_bind hfirst
      obtain ⟨checks, u, rfl, hread⟩ := Prog.goes_request_bind hnamed
      obtain ⟨u, x, states, rfl, hstates, hclosed⟩ := Prog.goes_bind_ok hread
      cases (Prog.goes_done hclosed).2
      obtain ⟨own, hown, rfl, hseen⟩ := goes_statesOf hstates
      obtain ⟨reads, counted, hreads, hids, hsummaries⟩ := ih hgs v later hlater
      have hother : ∀ i ∈ gs, i ≠ g := fun i hi => ne_of_mem_of_not_mem hi hg
      refine ⟨Function.update reads g checks, Function.update counted g own,
        List.forall_mem_cons.mpr ⟨?_, fun i hi => ?_⟩, ?_, ?_⟩
      · rw [Function.update_self, Function.update_self]
        exact ⟨hown, [⟨.act (.groupName g), name⟩], _, rfl, fun c hc => by simp [hseen c hc]⟩
      · rw [Function.update_of_ne (hother i hi), Function.update_of_ne (hother i hi)]
        have := (hreads i hi).around (⟨.act (.groupName g), name⟩ ::
          ⟨.act (.request (.checks g)), checks⟩ :: (u ++ x)) w
        simpa only [List.append_assoc, List.cons_append] using this
      · rw [List.map_cons, List.map_cons, Function.update_self, hids]
        exact congrArg _ (List.map_congr_left fun i hi => by
          rw [Function.update_of_ne (hother i hi)])
      · rw [List.map_cons, List.map_cons, Function.update_self, hsummaries]
        exact congrArg _ (List.map_congr_left fun i hi => by
          rw [Function.update_of_ne (hother i hi)])
  obtain ⟨reads, counted, hreads, hids, hsummaries⟩ := hall
  exact ⟨reads, counted, fun g hg => (hreads g hg).around [] _, hids, hsummaries⟩

/-- What a report lists and counts is on the trail of writing it. -/
theorem exists_reads_of_report {p : Plan κ} {s : Progress} {began : Nat} {groups : List Nat}
    (hgroups : groups.Nodup) (h : (Run.report p s began groups).Goes t (.ok report)) :
    ∃ (reads : Nat → List (Check κ)) (counted : Nat → List (Member κ × Status)),
      (∀ g ∈ groups, ⟨.act (.request (.checks g)), reads g⟩ ∈ t ∧
        (counted g).map Prod.fst = members g (reads g) ∧
        ∀ c ∈ counted g, ⟨.act (.request (.status c.1.1)), c.2⟩ ∈ t) ∧
      report.groups.map GroupReport.checkIds = groups.map (fun g => (reads g).map Check.id) ∧
      report.groups.map GroupReport.summary =
        groups.map fun g => .ofStates ((counted g).map (·.2.state)) := by
  obtain ⟨reads, counted, hreads, hids, hsummaries⟩ := countsGroup_of_report hgroups h
  refine ⟨reads, counted, fun g hg => ?_, hids, hsummaries⟩
  obtain ⟨before, after, rfl, hafter⟩ := (hreads g hg).order
  exact ⟨List.mem_append_right _ List.mem_cons_self, (hreads g hg).members_eq, fun c hc =>
    List.mem_append_right _ (List.mem_cons_of_mem _ (hafter c hc))⟩

/-- Every entry of a report has its row, if some group is read to have a check with its id whenever
it was there before. -/
theorem exists_row_of_run (h : (run b filter limit catalog results).Goes t
      (.ok (results', .ok report)))
    (hold : ∀ entry ∈ results.entries, ∃ g,
      (∀ count, ⟨.groupCount, count⟩ ∈ t → g < count) ∧ ¬LacksId g entry.1 t)
    {entry : String × Record} (hentry : entry ∈ report.results.entries) :
    ∃ (p : Plan κ) (s s' : Progress), p.behaviour = b ∧ p.filter = filter ∧ s.abort = none ∧
      report.abortReason = s'.abort ∧ report.errors = s'.errors.map GroupError.text ∧
      Nonempty (Row p s s' entry t) := by
  obtain ⟨number, t, rfl, hattached⟩ := Prog.goes_request_bind h
  obtain ⟨began, t, rfl, hbegan⟩ := Prog.goes_request_bind hattached
  obtain ⟨count, t, rfl, hcounted⟩ := Prog.goes_request_bind hbegan
  obtain ⟨t₁, t₂, ⟨s', missing⟩, rfl, hgroups, hrest⟩ := Prog.goes_bind_ok hcounted
  cases missing with
  | some missing =>
    obtain ⟨_, t₃, rfl, hdone⟩ := Prog.goes_request_bind hrest
    cases (Prog.goes_done hdone).2
  | none =>
    obtain ⟨t₃, t₄, reported, rfl, hreport, hlast⟩ := Prog.goes_bind_ok hrest
    obtain ⟨_, t₅, rfl, hdone⟩ := Prog.goes_request_bind hlast
    cases (Prog.goes_done hdone).2
    obtain ⟨hsame, herrors, habort⟩ := goes_report hreport
    rw [hsame] at hentry
    refine ⟨⟨b, number, filter, limit.map (began + ·), catalog⟩, ⟨none, [], 0, results⟩, s', rfl,
      rfl, rfl, habort, herrors, ?_⟩
    rcases exists_row hgroups hentry with ⟨hthere, hothers⟩ | ⟨⟨row⟩⟩
    · obtain ⟨g, hg, hhas⟩ := hold entry hthere
      refine absurd ((hothers rfl g (List.mem_range.mpr (hg count (by simp)))).mono ?_) hhas
      exact fun a ha => by simp [ha]
    · refine ⟨{ row with
        earlier := ⟨.attach, number⟩ :: ⟨.act .now, began⟩ :: ⟨.groupCount, count⟩ :: row.earlier
        later := row.later ++ (t₃ ++ ⟨.detach, ()⟩ :: t₅)
        trail_eq := by simp [row.trail_eq]
        unbroken := ?_ }⟩
      intro hnone
      obtain ⟨-, hearlier⟩ := row.unbroken hnone
      refine ⟨rfl, fun token hmem => hearlier token ?_⟩
      simpa using hmem

theorem only_move {P : Move κ → Prop} (op : Move κ) (h : P op) : (move op).Only P :=
  Prog.only_request h

/-- A question that is asked for a report. -/
def IsQuestion : Move κ → Prop
  | .act .now | .act (.groupName _) | .act (.request (.checks _)) | .act (.request (.status _)) =>
    True
  | _ => False

theorem questions_statesOf (ms : List (Member κ)) : (statesOf ms).Only IsQuestion := by
  induction ms with
  | nil => trivial
  | cons m rest ih =>
    refine (only_move (.act (.request (.status m.1))) trivial).bind fun _ => ?_
    exact ih.bind fun _ => trivial

theorem questions_report (p : Plan κ) (s : Progress) (began : Nat) (gs : List Nat) :
    (Run.report p s began gs).Only IsQuestion := by
  have hgroup (g : Nat) : (reportGroup (κ := κ) g).Only IsQuestion := by
    refine (only_move (.act (.groupName g)) trivial).bind fun name => ?_
    refine (only_move (.act (.request (.checks g))) trivial).bind fun checks => ?_
    exact (questions_statesOf _).bind fun _ => trivial
  have hgroups : (reportGroups (κ := κ) gs).Only IsQuestion := by
    induction gs with
    | nil => trivial
    | cons g gs ih => exact (hgroup g).bind fun _ => ih.bind fun _ => trivial
  refine hgroups.bind fun reports => ?_
  exact (only_move (.act .now) trivial).bind fun _ => trivial

theorem neverPanics_report (p : Plan κ) (s : Progress) (began : Nat) (gs : List Nat) :
    (Run.report p s began gs).NeverPanics := by
  have hstates (ms : List (Group.Member κ)) : (statesOf ms).NeverPanics := by
    induction ms with
    | nil => trivial
    | cons m rest ih => exact (Prog.neverPanics_request _).bind fun _ => ih.bind fun _ => trivial
  have hgroups : (reportGroups (κ := κ) gs).NeverPanics := by
    induction gs with
    | nil => trivial
    | cons g gs ih =>
      refine Prog.NeverPanics.bind ?_ fun _ => ih.bind fun _ => trivial
      refine (Prog.neverPanics_request _).bind fun name => ?_
      exact (Prog.neverPanics_request _).bind fun checks => (hstates _).bind fun _ => trivial
  exact hgroups.bind fun _ => (Prog.neverPanics_request _).bind fun _ => trivial

/-- What the thread that runs all groups may ask for. It spawns only workers of groups. -/
def IsMainly (b : Behaviour κ) (filter : Label.Filter) : Move κ → Prop
  | .act (.request _) | .act .now | .act (.newToken _) | .act (.setToken _)
  | .act (.groupName _) => True
  | .act _ => False
  | .spawn g w => ∃ number token, w = worker b number g filter token
  | _ => True

theorem mainly_ofCallback (p : Callback κ α) : (ofCallback p).Only (IsMainly b filter) := by
  refine Prog.only_lift ?_ p
  intro op
  trivial

theorem mainly_labelGroup (p : Plan κ) (s : Progress) (g : Nat) (reason : String) :
    (labelGroup p s g reason).Only (IsMainly b filter) :=
  (mainly_ofCallback _).bind fun _ => trivial

theorem mainly_runGroup (p : Plan κ) (s : Progress) (g : Nat) :
    (runGroup p s g).Only (IsMainly p.behaviour p.filter) := by
  obtain ⟨abort, errors, failed, results⟩ := s
  cases abort with
  | some reason =>
    exact (only_move (.act .now) trivial).bind fun _ => mainly_labelGroup p _ g reason
  | none =>
    rw [runGroup_eq]
    refine (only_move (.act .now) trivial).bind fun time => ?_
    split
    · exact mainly_labelGroup p _ g timeoutReason
    · refine (only_move (.act (.newToken g)) trivial).bind fun token => ?_
      refine (only_move (.spawn g _) ⟨p.run, token, rfl⟩).bind fun _ => ?_
      refine (only_move (.await g p.deadline) trivial).bind fun wait => ?_
      cases wait with
      | done outcome => trivial
      | abort reason =>
        exact (only_move (.act (.setToken token)) trivial).bind fun _ =>
          mainly_labelGroup p _ g reason

theorem mainly_runGroups (p : Plan κ) (s : Progress) (gs : List Nat) :
    (runGroups p s gs).Only (IsMainly p.behaviour p.filter) := by
  induction gs generalizing s with
  | nil => trivial
  | cons g gs ih =>
    refine (mainly_runGroup p s g).bind fun s₁ => ?_
    refine (mainly_ofCallback _).bind ?_
    rintro ⟨results, missing⟩
    cases missing with
    | some missing => trivial
    | none => exact ih _

theorem mainly_run (b : Behaviour κ) (filter : Label.Filter) (limit : Option Nat)
    (catalog : Catalog) (results : Results) :
    (run b filter limit catalog results).Only (IsMainly b filter) := by
  refine (only_move .attach trivial).bind fun number => ?_
  refine (only_move (.act .now) trivial).bind fun began => ?_
  refine (only_move .groupCount trivial).bind fun count => ?_
  let p : Plan κ := ⟨b, number, filter, limit.map (began + ·), catalog⟩
  refine Prog.Only.bind (mainly_runGroups p ⟨none, [], 0, results⟩ (List.range count)) ?_
  rintro ⟨s, missing⟩
  cases missing with
  | some missing => exact (only_move .detach trivial).bind fun _ => trivial
  | none =>
    refine Prog.Only.bind ?_ fun _ => (only_move .detach trivial).bind fun _ => trivial
    refine (questions_report _ _ _ _).mono fun op hop => ?_
    cases op with
    | act op =>
      cases op with
      | now | groupName | request => trivial
      | _ => exact absurd hop id
    | _ => exact absurd hop id

theorem neverPanics_labelGroup (p : Plan κ) (s : Progress) (g : Nat) (reason : String) :
    (labelGroup p s g reason).NeverPanics := by
  have hjudges (ls : List (CheckRef × Verdict)) :
      (judgeAll ls : Callback κ Unit).NeverPanics := by
    induction ls with
    | nil => trivial
    | cons l rest ih => exact (Prog.neverPanics_request _).bind fun _ => ih
  have hlabels : (labelAborted g p.filter reason : Callback κ Unit).NeverPanics := by
    refine (Prog.neverPanics_request _).bind fun cursor => ?_
    refine (Prog.neverPanics_request _).bind fun checks => ?_
    rw [labelFrom_eq]
    exact hjudges _
  refine Prog.NeverPanics.bind hlabels.lift fun _ => ?_
  trivial

/-- Nothing that the thread does that runs all groups may panic. -/
theorem neverPanics_run (b : Behaviour κ) (filter : Label.Filter) (limit : Option Nat)
    (catalog : Catalog) (results : Results) :
    (run b filter limit catalog results).NeverPanics := by
  have hgroup (p : Plan κ) (s : Progress) (g : Nat) : (runGroup p s g).NeverPanics := by
    obtain ⟨abort, errors, failed, results⟩ := s
    cases abort with
    | some reason =>
      exact (Prog.neverPanics_request _).bind fun _ => neverPanics_labelGroup p _ g reason
    | none =>
      rw [runGroup_eq]
      refine (Prog.neverPanics_request _).bind fun time => ?_
      split
      · exact neverPanics_labelGroup p _ g timeoutReason
      · refine (Prog.neverPanics_request _).bind fun token => ?_
        refine (Prog.neverPanics_request _).bind fun _ => ?_
        refine (Prog.neverPanics_request _).bind fun wait => ?_
        cases wait with
        | done outcome => trivial
        | abort reason =>
          exact (Prog.neverPanics_request _).bind fun _ => neverPanics_labelGroup p _ g reason
  have hgroups (p : Plan κ) (gs : List Nat) : ∀ s, (runGroups p s gs).NeverPanics := by
    induction gs with
    | nil => exact fun _ => trivial
    | cons g gs ih =>
      intro s
      refine (hgroup p s g).bind fun s₁ => ?_
      refine (Recording.neverPanics_recordGroup _ _ _).lift.bind ?_
      rintro ⟨results, missing⟩
      cases missing with
      | some missing => trivial
      | none => exact ih _
  refine (Prog.neverPanics_request _).bind fun number => ?_
  refine (Prog.neverPanics_request _).bind fun began => ?_
  refine (Prog.neverPanics_request _).bind fun count => ?_
  refine (hgroups _ _ _).bind ?_
  rintro ⟨s, missing⟩
  cases missing with
  | some missing => exact (Prog.neverPanics_request _).bind fun _ => trivial
  | none =>
    exact (neverPanics_report _ _ _ _).bind fun _ =>
      (Prog.neverPanics_request _).bind fun _ => trivial

end Whole

end Conformance.Run
