import Conformance.Proofs.Run.Clockwork
import Conformance.Proofs.Run.Origins
import Conformance.Proofs.Run.StopSafety
import Conformance.Run.Orchestrator

/-!
Which checks pass. Every check starts as passed, so that every way on which it is not run has to
judge it: being left out by the filter, a skip, an error, and the label for an abort. A report of a
first run shows a check as passed only if the check was run to its end. There are two ways around
this, both by a group run that is taken as complete: a check returned a request to abort that the
run has not heard of, or the text of an error could not be had. Both come with an error in the
report. Whoever asks for a stop of a group on his own account may leave checks as they were, too.
-/
namespace Conformance.Run

open Conformance.Group Scene

variable {κ α : Type}

section Fresh

/-- No group has been run yet. -/
structure Unmarked (e : Engine κ) : Prop where
  cursorOf (g : Nat) : e.cursorOf g = none
  tokens : e.tokens = []
  noneDone : e.NoneDone

theorem Unmarked.apply {e : Engine κ} (h : Unmarked e) (op : Request κ) :
    Unmarked (op.apply e).2 where
  cursorOf g := ((op.onlyChecks_apply e).cursorOf g).trans (h.cursorOf g)
  tokens := by
    rcases op.tokens_apply e with hsame | ⟨g, token, -, hset⟩
    · exact hsame.trans h.tokens
    · rw [hset, Engine.setToken, h.tokens]
      rfl
  noneDone := op.noneDone_apply h.noneDone

theorem Unmarked.exec {e : Engine κ} (h : Unmarked e) (p : Callback κ α) :
    Unmarked (p.exec Request.apply e).2 :=
  Prog.has_of_apply (K := fun e e' => Unmarked e → Unmarked e')
    ⟨fun _ h => h, fun h h' hmarks => h' (h hmarks)⟩ (fun op _ h => h.apply op) p e trivial h

/-- Orchestrators before their first run: groups, hooks, checks and catalogs have been added, and
callbacks have been called from outside. -/
inductive Fresh : Orchestrator κ → Prop
  | new (catalog : Catalog) (clock : Nat) : Fresh (.new catalog clock)
  | group {o : Orchestrator κ} (h : Fresh o) (name : String) : Fresh (o.group name).2
  | setHooks {o : Orchestrator κ} (h : Fresh o) (g : Nat) (hooks : Hooks κ) :
      Fresh (o.setHooks g hooks)
  | perform {α : Type} {o : Orchestrator κ} (h : Fresh o) (p : Callback κ α) :
      Fresh (o.perform p).2
  | addCatalog {o : Orchestrator κ} (h : Fresh o) (catalog : Catalog) : Fresh (o.addCatalog catalog)

variable {o : Orchestrator κ}

theorem unmarked_group (h : Unmarked o.engine) (name : String) :
    Unmarked (o.group name).2.engine := by
  unfold Orchestrator.group
  cases o.findGroup? name with
  | some g => exact h
  | none =>
    refine ⟨fun g => ?_, h.tokens, h.noneDone⟩
    have hold := h.cursorOf g
    unfold Engine.cursorOf Engine.group? at hold ⊢
    rcases Nat.lt_or_ge g o.engine.groups.length with hlt | hge
    · exact (congrArg (Option.bind · Group.cursor) (List.getElem?_append_left hlt)).trans hold
    · have hlast : (o.engine.groups ++ [Group.fresh name])[g]? =
          [Group.fresh name][g - o.engine.groups.length]? := List.getElem?_append_right hge
      refine (congrArg (Option.bind · Group.cursor) hlast).trans ?_
      cases g - o.engine.groups.length <;> rfl

theorem Fresh.unmarked (h : Fresh o) : Unmarked o.engine := by
  induction h with
  | new catalog clock => exact ⟨fun _ => rfl, rfl, nofun⟩
  | group _ name ih => exact unmarked_group ih name
  | setHooks _ g hooks ih =>
    refine ⟨fun g' => ?_, ih.tokens, ih.noneDone⟩
    refine (Engine.cursorOf_modifyGroup _ g ?_ g').trans (ih.cursorOf g')
    intro group
    rfl
  | perform _ p ih => exact ih.exec p
  | addCatalog _ _ ih => exact ih

theorem Fresh.results_eq (h : Fresh o) : o.results.entries = [] := by
  induction h with
  | new => rfl
  | @group o _ name ih =>
    unfold Orchestrator.group
    cases o.findGroup? name <;> exact ih
  | setHooks _ g hooks ih => exact ih
  | perform _ p ih => exact ih
  | addCatalog _ _ ih => exact ih

end Fresh

section Reading

variable {s s' : Scene κ α} {T : Story κ} {ev : Event κ} {g : Nat} {checks : List (Check κ)}
  {r : CheckRef} {c : Check κ}

/-- Whoever asks for the checks of a group is told of those that were there from the beginning, and
of none but those that are there in the end, in their order. -/
theorem isPrefix_members_of_read (h : s.Plays T s') (hread : ev ∈ T)
    (hev : ev.action? = some ⟨.request (.checks g), checks⟩) :
    membersOf s.engine g <+: members g checks ∧ members g checks <+: membersOf s'.engine g := by
  obtain ⟨e, hbefore, hafter, rfl⟩ := exists_moment_of_read h hread hev
  exact ⟨isPrefix_members (isPrefix_checks hbefore g) g,
    isPrefix_members (isPrefix_checks hafter g) g⟩

/-- A check that is there from the beginning is among those that anybody is told of. -/
theorem mem_members_of_read (h : s.Plays T s') (hread : ev ∈ T)
    (hev : ev.action? = some ⟨.request (.checks g), checks⟩)
    (hthere : s.engine.definition? r = some c) (hr : r.group = g) : (r, c) ∈ members g checks :=
  (isPrefix_members_of_read h hread hev).1.subset (mem_membersOf.mpr ⟨hr, hthere⟩)

theorem mem_membersOf_of_read (h : s.Plays T s') (hread : ev ∈ T)
    (hev : ev.action? = some ⟨.request (.checks g), checks⟩) {m : Member κ}
    (hm : m ∈ members g checks) : m ∈ membersOf s'.engine g :=
  (isPrefix_members_of_read h hread hev).2.subset hm

end Reading

section Completion

/-- An outcome of a group run that has not dealt with all checks of its group: a request to abort
came back from one of them, or the run panicked. -/
def Overlooks (outcome : Outcome) : Prop :=
  (∃ error ∈ outcome.errors, IsAbort error) ∨ ∃ name panic, outcome = outcomeOf name (.error panic)

theorem Overlooks.exists_error {outcome : Outcome} (h : Overlooks outcome) :
    ∃ error, error ∈ outcome.errors := by
  rcases h with ⟨error, herror, -⟩ | ⟨name, panic, rfl⟩
  · exact ⟨error, herror⟩
  · exact ⟨_, List.mem_cons_self⟩

variable {b : Behaviour κ} {filter : Label.Filter} {s s' : Scene κ α} {T : Story κ} {g : Nat}
  {r : CheckRef} {c : Check κ}

theorem infix_workerTrail (U V : Story κ) (i : Nat) :
    Story.workerTrail i U <:+: Story.workerTrail i (U ++ V) := by
  rw [Story.workerTrail_append]
  exact (List.prefix_append _ _).isInfix

/-- A group that was waited for up to its completion has dealt with each of its checks. -/
theorem covered_of_accepted (h : Told b filter s T s') (hs : Unmarked s.engine)
    (hstops : StopsNobody T.mainTrail) {deadline : Option Nat} {outcome : Outcome}
    (haccepted : Event.main ⟨.await g deadline, .done outcome⟩ ∈ T)
    (hthere : s.engine.definition? r = some c) (hr : r.group = g) :
    Judged T.actions r ∨ (∃ i, Completed b (T.workerTrail i) (r, c)) ∨ Overlooks outcome ∨
      StopAsked T := by
  obtain ⟨U, V, rfl⟩ := List.append_of_mem haccepted
  obtain ⟨s₁, hU, hV⟩ := h.split
  obtain ⟨s₂, s₃, hnothing, hstep, -⟩ := hV.exists_step (T := [])
  obtain rfl := plays_nil hnothing
  have hsignal := mem_signals_of_accepted hstep
  obtain ⟨i, number, token, name, u, x, rfl, hu, hrun⟩ := hU.done_origin hs.noneDone hsignal
  cases x with
  | error panic => exact .inr (.inr (.inl (.inr ⟨name, panic, rfl⟩)))
  | ok outcome =>
    obtain ⟨checks, hread, haccounts⟩ := accounts_run hrun
    have hmem := mem_members_of_read hU.plays (Story.mem_of_workerTrail (hu.subset hread)) rfl
      hthere hr
    have hgrown := infix_workerTrail U (Event.main ⟨.await g deadline, .done outcome⟩ :: V) i
    rcases haccounts with hcovered | habort | hstopped
    · rcases (hcovered _ hmem).mono (hu.trans hgrown) with ⟨a, ha, hcondemns⟩ | hcompleted
      · exact .inl ⟨a, Story.mem_actions ha, hcondemns⟩
      · exact .inr (.inl ⟨i, hcompleted⟩)
    · exact .inr (.inr (.inl (.inl habort)))
    · have hseen := Story.mem_of_workerTrail ((hu.trans hgrown).subset hstopped)
      exact .inr (.inr (.inr (h.stopped_origin hs.tokens hstops hseen)))

end Completion

section Labelled

theorem place_of_labelAt {reason : String} {cursor : Option Nat} {rank : Nat}
    (h : labelAt reason cursor rank = none) : ∃ place, cursor = some place ∧ rank < place := by
  cases cursor with
  | none => cases h
  | some place =>
    simp only [labelAt] at h
    split at h
    · cases h
    · split at h
      · cases h
      · exact ⟨place, rfl, by omega⟩

/-- No label lets a check pass. -/
theorem isSome_of_mem_labels {filter : Label.Filter} {reason : String} {cursor : Option Nat}
    {ms : List (Member κ)} {r : CheckRef} {verdict : Verdict}
    (h : (r, verdict) ∈ labels filter reason cursor 0 ms) :
    (Standing.ofVerdict? verdict).isSome := by
  rcases mem_labels.mp h with ⟨-, -, -, -, rfl⟩ | ⟨i, -, -, -, hlabel⟩
  · rfl
  · cases cursor with
    | none =>
      cases hlabel
      rfl
    | some place =>
      simp only [labelAt] at hlabel
      split at hlabel
      · cases hlabel
        rfl
      · split at hlabel
        · cases hlabel
          rfl
        · cases hlabel

variable {b : Behaviour κ} {filter : Label.Filter} {s s' : Scene κ α} {T : Story κ} {g : Nat}
  {r : CheckRef} {c : Check κ}

/-- The checks before a cursor that was read have been dealt with by a worker. -/
theorem covered_of_cursor (h : Told b filter s T s') (hs : Unmarked s.engine) {place : Nat}
    (hread : Event.main ⟨.act (.request (.cursor g)), some place⟩ ∈ T)
    (hthere : s.engine.definition? r = some c) (hr : r.group = g) {i : Nat}
    (hrank : (selected filter (membersOf s'.engine g))[i]? = some (r, c)) (hi : i < place) :
    Judged T.actions r ∨ ∃ j, Completed b (T.workerTrail j) (r, c) := by
  obtain ⟨U, V, rfl⟩ := List.append_of_mem hread
  obtain ⟨s₁, hU, hV⟩ := h.split
  obtain ⟨s₂, s₃, hnothing, hstep, -⟩ := hV.exists_step (T := [])
  obtain rfl := plays_nil hnothing
  have hplace : s₂.engine.cursorOf g = some place := by
    rcases hstep.engine_cases with ⟨a, ha, hanswer, -⟩ | ⟨hnone, -⟩
    · cases ha
      exact hanswer.symm
    · cases hnone
  obtain ⟨j, number, token, hway, hset⟩ := hU.cursor_origin (hs.cursorOf g) hplace
  obtain ⟨checks, htold, hran⟩ := hway.ran hset
  have hmember := mem_members_of_read hU.plays (Story.mem_of_workerTrail htold) rfl hthere hr
  have hselects := (List.mem_filter.mp (List.mem_of_getElem? hrank)).2
  have hchosen : (r, c) ∈ selected filter (members g checks) :=
    List.mem_filter.mpr ⟨hmember, hselects⟩
  obtain ⟨k, hk⟩ := List.getElem?_of_mem hchosen
  have hgrown := infix_workerTrail U
    (Event.main ⟨.act (.request (.cursor g)), some place⟩ :: V) j
  have hlater : Event.worker j ⟨.request (.checks g), checks⟩ ∈
      U ++ Event.main ⟨.act (.request (.cursor g)), some place⟩ :: V :=
    Story.mem_of_workerTrail (hgrown.subset htold)
  obtain rfl : k = i := by
    exact selected_place_unique (selected_of_read h.plays hlater rfl hk) hrank rfl
  obtain ⟨u, st, remaining, hu, rfl, hround⟩ := hran hi hk
  rcases ((goes_iteration hround).1 rfl).mono (hu.trans hgrown) with
    ⟨a, ha, hcondemns⟩ | hcompleted
  · exact .inl ⟨a, Story.mem_actions ha, hcondemns⟩
  · exact .inr ⟨j, hcompleted⟩

/-- A group that was labelled for an abort leaves no check as it was that has not been run to its
end. -/
theorem covered_of_labelled (h : Told b filter s T s') (hs : Unmarked s.engine) {reason : String}
    {cursor : Option Nat} {checks : List (Check κ)}
    (hcursor : Event.main ⟨.act (.request (.cursor g)), cursor⟩ ∈ T)
    (hchecks : Event.main ⟨.act (.request (.checks g)), checks⟩ ∈ T)
    (hlabels : ∀ l ∈ labels filter reason cursor 0 (members g checks),
      Event.main ⟨.act (.request (.judge l.1 l.2)), ()⟩ ∈ T)
    (hthere : s.engine.definition? r = some c) (hr : r.group = g) :
    Judged T.actions r ∨ ∃ j, Completed b (T.workerTrail j) (r, c) := by
  have hjudged {verdict : Verdict}
      (hl : (r, verdict) ∈ labels filter reason cursor 0 (members g checks)) :
      Judged T.actions r :=
    ⟨_, List.mem_filterMap.mpr ⟨_, hlabels _ hl, rfl⟩,
      Action.condemns_judge r (isSome_of_mem_labels hl)⟩
  have hmember := mem_members_of_read h.plays hchecks rfl hthere hr
  by_cases hselects : filter.selects c.labels = true
  · have hchosen : (r, c) ∈ selected filter (members g checks) :=
      List.mem_filter.mpr ⟨hmember, hselects⟩
    obtain ⟨i, hi⟩ := List.getElem?_of_mem hchosen
    cases hlabel : labelAt reason cursor i with
    | some verdict =>
      exact .inl (hjudged (mem_labels.mpr (.inr ⟨i, _, hi, rfl, by rwa [Nat.zero_add]⟩)))
    | none =>
      obtain ⟨place, rfl, hlt⟩ := place_of_labelAt hlabel
      exact covered_of_cursor h hs hcursor hthere hr (selected_of_read h.plays hchecks rfl hi) hlt
  · have hout : filter.selects c.labels = false := by simpa using hselects
    exact .inl (hjudged (mem_labels.mpr (.inl ⟨_, hmember, rfl, hout, rfl⟩)))

end Labelled

section Passing

variable {b : Behaviour κ} {filter : Label.Filter} {s s' : Scene κ α} {T U V : Story κ} {g : Nat}
  {r : CheckRef} {c : Check κ}

/-- Why a check may have passed: it was run to its end, or its group was taken as complete by an
outcome that overlooks checks, whose errors are reported, or somebody has asked for a stop. -/
inductive Passes (b : Behaviour κ) (T : Story κ) (errors : List String) (m : Member κ) : Prop
  | completed (i : Nat) (h : Completed b (T.workerTrail i) m)
  | overlooked {deadline : Option Nat} {outcome : Outcome}
      (haccepted : Event.main ⟨.await m.1.group deadline, .done outcome⟩ ∈ T)
      (h : Overlooks outcome) (herrors : ∀ error ∈ outcome.errors, error.text ∈ errors)
  | stopped (h : StopAsked T)

theorem Passes.append {errors : List String} {m : Member κ} (h : Passes b T errors m)
    (U : Story κ) : Passes b (T ++ U) errors m := by
  cases h with
  | completed i h => exact .completed i (h.mono (infix_workerTrail T U i))
  | overlooked haccepted h herrors =>
    exact .overlooked (List.mem_append_left _ haccepted) h herrors
  | stopped h =>
    obtain ⟨a, ha, hstop⟩ := h
    refine .stopped ⟨a, ?_, hstop⟩
    rw [Story.actions_append]
    exact List.mem_append_left _ ha

/-- No check passes unnoticed that was not run to its end, unless somebody has asked for a stop. -/
theorem Passes.completed_or_stopped {m : Member κ} (h : Passes b T [] m) :
    (∃ i, Completed b (T.workerTrail i) m) ∨ StopAsked T := by
  cases h with
  | completed i h => exact .inl ⟨i, h⟩
  | stopped h => exact .inr h
  | overlooked _ h herrors =>
    obtain ⟨error, herror⟩ := h.exists_error
    exact absurd (herrors error herror) List.not_mem_nil

/-- When a group has ended, each of its checks has been judged, or may pass. -/
theorem passes_of_groupTrail (h : Told b filter s (T ++ U) s') (hs : Unmarked s.engine)
    {p : Plan κ} (hfilter : p.filter = filter) {st st' : Progress}
    (hgroup : GroupTrail p r.group st (Story.mainTrail U) st')
    (hstops : st.abort = none → StopsNobody (Story.mainTrail T)) {errors : List String}
    (herrors : ∀ error ∈ st'.errors, error.text ∈ errors)
    (hthere : s.engine.definition? r = some c) :
    Judged (Story.actions (T ++ U)) r ∨ Passes b (T ++ U) errors (r, c) := by
  have hmem {a : Prog.Exchange (@Move.Resp κ)} (ha : a ∈ Story.mainTrail U) :
      Event.main a ∈ T ++ U := List.mem_append_right _ (Story.mem_of_mainTrail ha)
  have hwhole : Story.mainTrail (T ++ U) = Story.mainTrail T ++ Story.mainTrail U :=
    List.filterMap_append
  generalize Story.mainTrail U = t at hgroup hmem hwhole
  subst hfilter
  cases hgroup with
  | @labelled before after reason cursor checks hlabels =>
    have hcursor : Event.main ⟨.act (.request (.cursor r.group)), cursor⟩ ∈ T ++ U :=
      hmem (by simp)
    have hchecks : Event.main ⟨.act (.request (.checks r.group)), checks⟩ ∈ T ++ U :=
      hmem (by simp)
    have hjudges (l : CheckRef × Verdict)
        (hl : l ∈ labels p.filter reason cursor 0 (members r.group checks)) :
        Event.main ⟨.act (.request (.judge l.1 l.2)), ()⟩ ∈ T ++ U :=
      hmem (by simp [hlabels l hl])
    refine (covered_of_labelled h hs hcursor hchecks hjudges hthere rfl).imp_right ?_
    rintro ⟨i, hcompleted⟩
    exact .completed i hcompleted
  | @done time token outcome hnone =>
    have haccepted : Event.main ⟨.await r.group p.deadline, .done outcome⟩ ∈ T ++ U :=
      hmem (by simp)
    have hquiet : StopsNobody (Story.mainTrail (T ++ U)) := by
      rw [hwhole]
      refine (hstops hnone).append ?_
      intro token' hset
      simp at hset
    rcases covered_of_accepted h hs hquiet haccepted hthere rfl with
      hjudged | ⟨i, hcompleted⟩ | hoverlooks | hasked
    · exact .inl hjudged
    · exact .inr (.completed i hcompleted)
    · refine .inr (.overlooked haccepted hoverlooks fun error herror => ?_)
      exact herrors error (List.mem_append_right _ herror)
    · exact .inr (.stopped hasked)

/-- A check that is seen as passed has not been judged before. -/
theorem not_judged_of_passed {status : Status} (h : s.Plays T s')
    (hseen : Event.main ⟨.act (.request (.status r)), status⟩ ∈ V) (hT : T = U ++ V)
    (hpassed : status.state = .passed) (hthere : s.engine.definition? r = some c) :
    ¬Judged (Story.actions U) r := by
  intro hjudged
  obtain ⟨V₁, V₂, rfl⟩ := List.append_of_mem hseen
  rw [hT, ← List.append_assoc] at h
  obtain ⟨s₁, s₂, hbefore, hstep, -⟩ := h.exists_step
  have hstill : Judged (Story.actions (U ++ V₁)) r := by
    rw [Story.actions_append]
    exact hjudged.mono (List.prefix_append _ _).isInfix
  obtain ⟨v, hv, hstate⟩ := notPassed_of_judged hbefore hthere hstill
  rcases hstep.engine_cases with ⟨a, ha, hanswer, -⟩ | ⟨hnone, -⟩
  · cases ha
    obtain ⟨k, hk, rfl⟩ := Option.map_eq_some_iff.mp hv
    have hstatus : status = k.status := by
      refine hanswer.trans ?_
      simp only [Action.apply, Request.apply, hk]
    rw [hstatus] at hpassed
    exact hstate hpassed
  · cases hnone

/-- From every fresh orchestrator, for every filter, time limit and behaviour, and in whatever order
the run, its workers, those who interrupt it and the deadline take their steps: an entry of the
report that shows a check as passed is that of a registered check which was seen as passed. If this
check was there before the run, it was run to its end in this run, all of its functions having ended
well. But for that, the run has taken its group as complete by an outcome that overlooks checks, all
of whose errors are reported, or somebody has asked for a stop of a group. -/
theorem passing_is_earned {o : Orchestrator κ} (ho : Fresh o) {limit : Option Nat}
    {results : Results} {report : RunReport} {ws : List (Worker κ Unit)} {e : Engine κ}
    (h : Scene.Plays ⟨run b filter limit o.catalog o.results, [], o.engine⟩ T
      ⟨.done (results, .ok report), ws, e⟩) {entry : String × Record}
    (hentry : entry ∈ report.results.entries) (hpassed : entry.2.state = .passed) :
    ∃ r c status, e.definition? r = some c ∧ c.id = entry.1 ∧
      Event.main ⟨.act (.request (.status r)), status⟩ ∈ T ∧ status.state = .passed ∧
      (o.engine.definition? r = some c → Passes b T report.errors (r, c)) := by
  have hwhole := h.main_reaches.goes_of_done
  have hold : ∀ entry ∈ o.results.entries, ∃ g, (∀ count,
      ⟨.groupCount, count⟩ ∈ T.mainTrail → g < count) ∧ ¬LacksId g entry.1 T.mainTrail := by
    rw [ho.results_eq]
    exact List.forall_mem_nil _
  obtain ⟨p, st, st', rfl, rfl, -, -, herrors, ⟨row⟩⟩ := exists_row_of_run hwhole hold hentry
  -- The story, cut where the group begins, where it has ended, and where it has been recorded.
  obtain ⟨U₁, U, rfl, hU₁, hU⟩ := Story.exists_split_of_mainTrail row.trail_eq
  obtain ⟨U₂, V, rfl, hU₂, hV⟩ := Story.exists_split_of_mainTrail hU
  obtain ⟨U₃, U₄, rfl, hU₃, -⟩ := Story.exists_split_of_mainTrail hV
  obtain ⟨checks, m, status, u, hu, hm, hid, hseen, hstate⟩ := row.isRecordOf
  have hread : ⟨.act (.request (.checks row.group)), checks⟩ ∈ Story.mainTrail U₃ := by
    rw [hU₃, hu]
    exact List.mem_cons_self
  replace hseen : ⟨.act (.request (.status m.1)), status⟩ ∈ Story.mainTrail U₃ := by
    rw [hU₃, hu]
    exact List.mem_cons_of_mem _ hseen
  have hrecorded {a : Prog.Exchange (@Move.Resp κ)} (ha : a ∈ Story.mainTrail U₃) :
      Event.main a ∈ U₃ ++ U₄ := List.mem_append_left _ (Story.mem_of_mainTrail ha)
  have hlater {ev : Event κ} (hev : ev ∈ U₃ ++ U₄) : ev ∈ U₁ ++ (U₂ ++ (U₃ ++ U₄)) :=
    List.mem_append_right _ (List.mem_append_right _ hev)
  obtain ⟨hgroup, hdefined⟩ :=
    mem_membersOf.mp (mem_membersOf_of_read h (hlater (hrecorded hread)) rfl hm)
  have hpassing := hstate.trans hpassed
  refine ⟨m.1, m.2, status, hdefined, hid, hlater (hrecorded hseen), hpassing, fun hthere => ?_⟩
  have hassoc : U₁ ++ (U₂ ++ (U₃ ++ U₄)) = (U₁ ++ U₂) ++ (U₃ ++ U₄) :=
    (List.append_assoc U₁ U₂ _).symm
  have htold : Told p.behaviour p.filter _ ((U₁ ++ U₂) ++ (U₃ ++ U₄)) _ :=
    ⟨hassoc ▸ h, mainly_run _ _ _ _ _, rfl⟩
  obtain ⟨s₁, hended, -⟩ := htold.split
  have htrail : GroupTrail p m.1.group row.start (Story.mainTrail U₂) row.ended := by
    rw [hgroup, hU₂]
    exact row.groupTrail
  have hstops (hnone : row.start.abort = none) : StopsNobody (Story.mainTrail U₁) := by
    rw [hU₁]
    exact (row.unbroken hnone).2
  have hreported : ∀ error ∈ row.ended.errors, error.text ∈ report.errors := by
    intro error herror
    rw [herrors]
    exact List.mem_map_of_mem (row.within.errors herror)
  rcases passes_of_groupTrail hended ho.unmarked rfl htrail hstops hreported hthere with
    hjudged | hpasses
  · exact absurd hjudged (not_judged_of_passed h (hrecorded hseen) hassoc hpassing hthere)
  · rw [hassoc]
    exact hpasses.append _

end Passing

end Conformance.Run

namespace Conformance

section Shop

def documented (id : String) : Catalog.Entry :=
  ⟨⟨id, "suite", "common"⟩, "", "", "", "", [], true, .none⟩

def plainCheck (id label : String) : Check Unit :=
  ⟨id, [label], none, some (), none, [], .any, none, none⟩

/-- Two checks in one group, with an entry for each. -/
def shop : Orchestrator Unit :=
  let catalog := (Catalog.empty.insert (documented "age")).insert (documented "size")
  let o := ((Orchestrator.new catalog 0).group "g").2
  (o.register 0 (plainCheck "age" "common")).register 0 (plainCheck "size" "rare")

/-- The body of the second check fails it. -/
def strict : Behaviour Unit where
  act _ call :=
    match call with
    | .body ⟨0, 1⟩ => do
      Callback.ask (.judge ⟨0, 1⟩ (.failed "too big"))
      return .ok ()
    | _ => .done (.ok ())
  excuse _ _ := .done none

def labelled (label : String) : Label.Filter := ⟨label, .label label⟩

end Shop

namespace Run

open Conformance.Group Scene

section Shop

theorem shop_fresh : Fresh shop :=
  .perform (.perform (.group (.new _ 0) "g") _) _

def shopRun (b : Behaviour Unit) (filter : Label.Filter) : Main Unit (Results × Answer) :=
  run b filter none shop.catalog shop.results

def strictRun : Main Unit (Results × Answer) := shopRun strict (labelled "common")

/-- The errors of a report, with the state of each entry. -/
def told (x : Except Panic (Results × Answer)) :
    Option (List String × List (String × CheckState)) :=
  match x with
  | .ok (_, .ok report) =>
    some (report.errors, report.results.entries.map fun entry => (entry.1, entry.2.state))
  | _ => none

theorem exists_told {x : Except Panic (Results × Answer)} {errors : List String}
    {states : List (String × CheckState)} (h : told x = some (errors, states)) :
    ∃ results report, x = .ok (results, .ok report) ∧ report.errors = errors ∧
      report.results.entries.map (fun entry => (entry.1, entry.2.state)) = states := by
  unfold told at h
  split at h
  · rename_i results report
    obtain ⟨herrors, hstates⟩ := Prod.mk.inj (Option.some.inj h)
    exact ⟨results, report, rfl, herrors, hstates⟩
  · cases h

theorem exists_entry {report : RunReport} {states : List (String × CheckState)}
    (h : report.results.entries.map (fun entry => (entry.1, entry.2.state)) = states) {id : String}
    {state : CheckState} (hmem : (id, state) ∈ states) :
    ∃ entry ∈ report.results.entries, entry.1 = id ∧ entry.2.state = state := by
  rw [← h] at hmem
  obtain ⟨entry, hentry, hsame⟩ := List.mem_map.mp hmem
  obtain ⟨hid, hstate⟩ := Prod.mk.inj hsame
  exact ⟨entry, hentry, hid, hstate⟩

/-- The shop, with a second group of one check. -/
def market : Orchestrator Unit :=
  let o := ((shop.addCatalog (Catalog.empty.insert (documented "weight"))).group "h").2
  o.register 1 (plainCheck "weight" "common")

def notOdd : Label.Filter := ⟨"!odd", .not (.label "odd")⟩

def marketRun (b : Behaviour Unit) : Main Unit (Results × Answer) :=
  run b ⟨"!odd", .not (.label "odd")⟩ none market.catalog market.results

/-- The ids of the checks, group by group. -/
def ids (e : Engine Unit) : List (List String) :=
  e.groups.map fun group => group.checks.map fun k => k.check.id

theorem eq_of_ids {e : Engine Unit} {c : Check Unit} {r : CheckRef}
    (hids : ids e = [["age", "size"]]) (h : e.definition? r = some c) (hid : c.id = "age") :
    r = ⟨0, 0⟩ := by
  have hname : ((ids e)[r.group]?.bind (·[r.index]?)) = some "age" := by
    rw [Engine.definition?_eq, Engine.checksOf, Engine.group?] at h
    rw [ids, List.getElem?_map]
    cases hgroup : e.groups[r.group]? with
    | none =>
      rw [hgroup] at h
      cases h
    | some group =>
      rw [hgroup] at h
      obtain ⟨k, hk, rfl⟩ := Option.map_eq_some_iff.mp h
      simp [hk, hid]
  rw [hids] at hname
  obtain ⟨_ | g, _ | _ | i⟩ := r
  · rfl
  all_goals simp at hname

def asksStop : Action Unit → Bool
  | .request (.stop _) => true
  | _ => false

/-- The first check of the shop passes, in a run that has nothing to report. -/
theorem passing_is_earned_strict :
    ∃ T report results ws e,
      Plays ⟨strictRun, [], shop.engine⟩ T ⟨.done (results, .ok report), ws, e⟩ ∧
      (∃ entry ∈ report.results.entries, entry.1 = "age" ∧ entry.2.state = .passed) ∧
      ∃ i, Completed strict (T.workerTrail i) (⟨0, 0⟩, plainCheck "age" "common") := by
  have htold : told (Schedule.drive strictRun [] shop.engine).1 =
      some ([], [("age", .passed), ("size", .skipped)]) := by decide +kernel
  have hids : ids (Schedule.drive strictRun [] shop.engine).2.2 = [["age", "size"]] := by
    decide +kernel
  have hquiet : ((Schedule.story strictRun [] shop.engine).actions.any fun a =>
      asksStop a.1) = false := by decide +kernel
  obtain ⟨results, report, hvalue, herrors, hstates⟩ := exists_told htold
  have hplays := Schedule.plays_story strictRun [] shop.engine hvalue
  obtain ⟨entry, hmem, hname, hpassed⟩ := exists_entry hstates List.mem_cons_self
  obtain ⟨r, c, status, hdefined, hid, -, -, hearned⟩ :=
    passing_is_earned shop_fresh hplays hmem hpassed
  obtain rfl := eq_of_ids hids hdefined (hid.trans hname)
  have hthere : shop.engine.definition? ⟨0, 0⟩ = some (plainCheck "age" "common") := rfl
  obtain rfl := Option.some.inj ((hplays.grows _ _ hthere).symm.trans hdefined)
  have hpasses := hearned hthere
  rw [herrors] at hpasses
  refine ⟨_, report, results, _, _, hplays, ⟨entry, hmem, hname, hpassed⟩, ?_⟩
  rcases hpasses.completed_or_stopped with hcompleted | ⟨⟨op, answer⟩, ha, g, rfl⟩
  · exact hcompleted
  · exact absurd rfl (List.any_eq_false.mp hquiet _ ha)

/-- The body of the first check returns a request of the second one to abort. -/
def blaming : Behaviour Unit where
  act _ call :=
    match call with
    | .body ⟨0, 0⟩ => .done (.error ⟨.abortRequest "size called abort: wrong one", []⟩)
    | _ => .done (.ok ())
  excuse _ _ := .done none

-- A request to abort that the run has not heard of lets all checks of the group pass.
example : told (Schedule.drive (shopRun blaming ⟨"!odd", .not (.label "odd")⟩) [] shop.engine).1 =
    some (["size called abort: wrong one"], [("age", .passed), ("size", .passed)]) := by
  decide +kernel

end Shop

end Run

end Conformance
