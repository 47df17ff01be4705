import Conformance.Proofs.Group.Coverage
import Conformance.Proofs.Run.Awaiting
import Conformance.Proofs.Run.Rows
import Conformance.Proofs.Run.Workers

/-!
Where things come from in a run that is told from its beginning: the place at which a cursor stands,
the completion of a group that is waiting in the inbox, and a stop token that is found set. Each of
them goes back to a worker of the group and to what this worker had done by then, or to someone who
asked for a stop.
-/
namespace Conformance.Run

open Conformance.Group Scene

variable {κ α : Type} {b : Behaviour κ} {filter : Label.Filter} {s s' : Scene κ α} {T U : Story κ}

section Told

/-- The story is told from the beginning of a run, when nobody has been spawned yet. -/
structure Told (b : Behaviour κ) (filter : Label.Filter) (s : Scene κ α) (T : Story κ)
    (s' : Scene κ α) : Prop where
  plays : s.Plays T s'
  main : s.main.Only (IsMainly b filter)
  workers : s.workers = []

theorem Told.split (h : Told b filter s (T ++ U) s') :
    ∃ s₁, Told b filter s T s₁ ∧ s₁.Plays U s' := by
  obtain ⟨s₁, hT, hU⟩ := h.plays.split
  exact ⟨s₁, ⟨hT, h.main, h.workers⟩, hU⟩

theorem Told.isMainly (h : Told b filter s T s') {a : Prog.Exchange (@Move.Resp κ)}
    (ha : Event.main a ∈ T) : IsMainly b filter a.1 :=
  h.main.reaches h.plays.main_reaches a (Story.mem_mainTrail ha)

/-- The workers of a run are workers of its groups. -/
theorem Told.worker (h : Told b filter s T s') {i : Nat} {a : Prog.Exchange (@Action.Resp κ)}
    (ha : Event.worker i a ∈ T) :
    ∃ number g token, Progressed b number g filter token (T.workerTrail i) ∧
      (IsOwn g token a.1 ∨ ∃ outcome, a.1 = .send number (.done g outcome)) := by
  obtain ⟨w, q, hw, hreaches⟩ := h.plays.reaches_of_mem ha
  have hspawned : w ∈ T.spawned := by
    rw [h.workers, List.nil_append] at hw
    exact List.mem_of_getElem? hw
  obtain ⟨ev, hev, hmove⟩ := List.mem_filterMap.mp hspawned
  cases ev with
  | main c =>
    obtain ⟨op, answer⟩ := c
    cases op with
    | spawn g v =>
      cases hmove
      obtain ⟨number, token, rfl⟩ := h.isMainly hev
      exact ⟨number, g, token, progressed_of_plays h.plays hw,
        (own_worker b number g filter token).reaches hreaches a (Story.mem_workerTrail ha)⟩
    | _ => cases hmove
  | worker => cases hmove
  | outside => cases hmove

/-- Who may have asked for an operation on the engine. -/
theorem Told.action_cases (h : Told b filter s T s') {a : Prog.Exchange (@Action.Resp κ)}
    (ha : a ∈ T.actions) :
    (∃ op, a.1 = .request op) ∨ (Event.main ⟨.act a.1, a.2⟩ ∈ T ∧ IsMainly b filter (.act a.1)) ∨
      ∃ i number g token, Event.worker i a ∈ T ∧
        Progressed b number g filter token (T.workerTrail i) ∧
        (IsOwn g token a.1 ∨ ∃ outcome, a.1 = .send number (.done g outcome)) := by
  obtain ⟨ev, hev, haction⟩ := List.mem_filterMap.mp ha
  cases ev with
  | main c =>
    obtain ⟨op, answer⟩ := c
    cases op with
    | act op =>
      cases haction
      exact .inr (.inl ⟨hev, h.isMainly hev⟩)
    | _ => cases haction
  | worker i c =>
    cases haction
    obtain ⟨number, g, token, hprogressed, hown⟩ := h.worker hev
    exact .inr (.inr ⟨i, number, g, token, hev, hprogressed, hown⟩)
  | outside c =>
    cases haction
    exact .inl ⟨_, rfl⟩

end Told

section Cursor

theorem cursorBy_origin {g place : Nat} {cursor : Option Nat} {t : Trail κ}
    (h : t.foldl (fun cursor a => a.1.cursorBy g cursor) cursor = some place) :
    cursor = some place ∨ ∃ a ∈ t, a.1 = .setCursor g (some place) := by
  induction t generalizing cursor with
  | nil => exact .inl h
  | cons a t ih =>
    rcases ih h with hfirst | ⟨c, hc, hset⟩
    · obtain ⟨op, answer⟩ := a
      cases op with
      | setCursor g' cursor' =>
        simp only [Action.cursorBy] at hfirst
        split at hfirst
        · rename_i hg
          exact .inr ⟨_, List.mem_cons_self, by rw [hg, hfirst]⟩
        · exact .inl hfirst
      | _ => exact .inl hfirst
    · exact .inr ⟨c, List.mem_cons_of_mem a hc, hset⟩

/-- A cursor that stands at a place was put there by a worker of the group. -/
theorem Told.cursor_origin (h : Told b filter s T s') {g place : Nat}
    (hstart : s.engine.cursorOf g = none) (hplace : s'.engine.cursorOf g = some place) :
    ∃ i number token, Progressed b number g filter token (T.workerTrail i) ∧
      ⟨.setCursor g (some place), ()⟩ ∈ T.workerTrail i := by
  have hthere : (s'.engine.group? g).isSome := by
    unfold Engine.cursorOf at hplace
    cases hgroup : s'.engine.group? g with
    | some group => rfl
    | none =>
      rw [hgroup] at hplace
      cases hplace
  rw [h.plays.cursorOf ((h.plays.isSome_group? g).symm.trans hthere), hstart] at hplace
  rcases cursorBy_origin hplace with hnone | ⟨⟨op, answer⟩, ha, hset⟩
  · cases hnone
  · obtain rfl : op = .setCursor g (some place) := hset
    rcases h.action_cases ha with ⟨op, hop⟩ | ⟨-, hmainly⟩ | ⟨i, number, g', token, hev, hway, hown⟩
    · cases hop
    · exact absurd hmainly id
    · rcases hown with hown | ⟨outcome, hsend⟩
      · obtain rfl : g = g' := hown
        exact ⟨i, number, token, hway, Story.mem_workerTrail hev⟩
      · cases hsend

end Cursor

section Completion

theorem mem_of_awaitGroup {g : Nat} {signals later : List Signal} {wait : Wait}
    (h : awaitGroup g signals = some (wait, later)) {signal : Signal} (hmem : signal ∈ later) :
    signal ∈ signals := by
  obtain ⟨earlier, first, rfl, -⟩ := awaitGroup_eq_some_iff.mp h
  exact List.mem_append_right _ (List.mem_cons_of_mem _ hmem)

/-- A completion that is taken in has come in before. -/
theorem mem_signals_of_accepted {g : Nat} {deadline : Option Nat} {outcome : Outcome}
    (h : Step s (.main ⟨.await g deadline, .done outcome⟩) s') :
    .done g outcome ∈ s.engine.inbox.signals := by
  generalize hev : Event.main ⟨.await g deadline, .done outcome⟩ = ev at h
  cases h with
  | await next ws hawait =>
    cases hev
    obtain ⟨earlier, _, hsignals, -, hdecides⟩ := awaitGroup_eq_some_iff.mp hawait
    cases hdecides
    rw [hsignals]
    exact List.mem_append_right _ List.mem_cons_self
  | _ => cases hev

theorem mem_signals_of_step {ev : Event κ} (h : Step s ev s') {signal : Signal}
    (hdone : signal.IsDone) (hmem : signal ∈ s'.engine.inbox.signals) :
    signal ∈ s.engine.inbox.signals ∨
      ∃ a number, ev.action? = some a ∧ a.1 = .send number signal := by
  have haction {op : Action κ} {e : Engine κ} (haction : ev.action? = some ⟨op, (op.apply e).1⟩)
      (hmem : signal ∈ (op.apply e).2.inbox.signals) : signal ∈ e.inbox.signals ∨
        ∃ a number, ev.action? = some a ∧ a.1 = .send number signal := by
    refine (Action.mem_signals_of_apply hdone hmem).imp_right ?_
    rintro ⟨number, hop⟩
    exact ⟨_, number, haction, hop⟩
  cases h with
  | act op => exact haction rfl hmem
  | work p e => exact haction rfl hmem
  | outside op => exact @haction (.request op) _ rfl hmem
  | attach => cases hmem
  | await next ws hawait => exact .inl (mem_of_awaitGroup hawait hmem)
  | _ => exact .inl hmem

theorem mem_signals_origin (h : s.Plays T s') {signal : Signal} (hdone : signal.IsDone)
    (hmem : signal ∈ s'.engine.inbox.signals) :
    signal ∈ s.engine.inbox.signals ∨ ∃ a ∈ T.actions, ∃ number, a.1 = .send number signal := by
  induction h with
  | start => exact .inl hmem
  | @step s₁ s₂ T ev _ hstep ih =>
    rw [T.actions_concat]
    rcases mem_signals_of_step hstep hdone hmem with hbefore | ⟨a, number, hev, hsend⟩
    · refine (ih hbefore).imp_right ?_
      rintro ⟨a, ha, hsend⟩
      exact ⟨a, List.mem_append_left _ ha, hsend⟩
    · exact .inr ⟨a, List.mem_append_right _ (by simp [hev]), number, hsend⟩

/-- A completion that has come in was told of by a worker of the group, whose run had come to this
outcome. -/
theorem Told.done_origin (h : Told b filter s T s') (hstart : s.engine.NoneDone) {g : Nat}
    {outcome : Outcome} (hmem : .done g outcome ∈ s'.engine.inbox.signals) :
    ∃ i number token name u x, outcome = outcomeOf name x ∧ u <:+: T.workerTrail i ∧
      (Group.run b g filter token (some ⟨number, g⟩)).Goes u x := by
  have hdone : (Signal.done g outcome).IsDone := trivial
  rcases mem_signals_origin h.plays hdone hmem with hold | ⟨⟨op, answer⟩, ha, number, hsend⟩
  · exact absurd hdone (hstart _ hold)
  · obtain rfl : op = .send number (.done g outcome) := hsend
    rcases h.action_cases ha with ⟨op, hop⟩ | ⟨-, hmainly⟩ | ⟨i, number', g', token, hev, hway, -⟩
    · cases hop
    · exact absurd hmainly id
    · obtain ⟨name, u, x, hsignal, hu, hrun⟩ := hway.goes_of_send (Story.mem_workerTrail hev)
      cases hsignal
      exact ⟨i, number', token, name, u, x, rfl, hu, hrun⟩

end Completion

section Stop

/-- Somebody has asked for a stop of a group run on his own account. -/
def StopAsked (T : Story κ) : Prop := ∃ a ∈ T.actions, ∃ g, a.1 = .request (.stop g)

/-- A stop token that was not set at the beginning is found set because somebody has asked for it,
where nobody sets it on another account. -/
theorem stopAsked_of_seen (h : s.Plays T s') {i token : Nat}
    (hsets : ∀ a ∈ T.actions, a.1 ≠ .setToken token) (hfresh : s.engine.tokenSet token = false)
    (hseen : Event.worker i ⟨.stopped token, true⟩ ∈ T) : StopAsked T := by
  obtain ⟨U, V, rfl⟩ := List.append_of_mem hseen
  obtain ⟨s₁, s₂, hU, hstep, -⟩ := h.exists_step
  have hset : s₁.engine.tokenSet token = true := by
    rcases hstep.engine_cases with ⟨a, ha, hanswer, -⟩ | ⟨hnone, -⟩
    · cases ha
      exact hanswer.symm
    · cases hnone
  rcases hU.tokenSet_cases hset with hbefore | ⟨a, ha, hsetter⟩
  · rw [hfresh] at hbefore
    cases hbefore
  · have hmem : a ∈ Story.actions (U ++ Event.worker i ⟨.stopped token, true⟩ :: V) := by
      rw [Story.actions_append]
      exact List.mem_append_left _ ha
    exact ⟨a, hmem, hsetter.resolve_left (hsets a hmem)⟩

/-- Of the workers of a run holds whatever holds of all workers of groups. -/
theorem only_spawned {P : Action κ → Prop} (h : s.Plays T s')
    (hmain : s.main.Only (IsMainly b filter))
    (hP : ∀ run g token, (worker b run g filter token).Only P) : ∀ w ∈ T.spawned, w.Only P := by
  intro w hw
  obtain ⟨g, hspawn⟩ := Story.exists_spawn hw
  obtain ⟨number, token, rfl⟩ := hmain.reaches h.main_reaches _ hspawn
  exact hP number g token

/-- The worker of a group sets no stop token. -/
theorem setsNone_worker (b : Behaviour κ) (run g : Nat) (filter : Label.Filter) (token : Nat) :
    (worker b run g filter token).Only fun op => ∀ token, op ≠ .setToken token := by
  refine (own_worker b run g filter token).mono ?_
  rintro _ hown token rfl
  rcases hown with hown | ⟨outcome, hsend⟩
  · exact hown
  · cases hsend

/-- Nobody sets a stop token but those who ask for a stop, where no group is stopped for an
abort. -/
theorem setsNone_of_plays (h : s.Plays T s') (hmain : s.main.Only (IsMainly b filter))
    (hws : ∀ w ∈ s.workers, w.Only fun op => ∀ token, op ≠ .setToken token)
    (hstops : StopsNobody T.mainTrail) {token : Nat} : ∀ a ∈ T.actions, a.1 ≠ .setToken token := by
  rintro ⟨op, answer⟩ ha rfl
  obtain ⟨ev, hev, haction⟩ := List.mem_filterMap.mp ha
  cases ev with
  | main a =>
    obtain ⟨op, answer⟩ := a
    cases op with
    | act op =>
      cases haction
      exact hstops token (Story.mem_mainTrail hev)
    | _ => cases haction
  | outside a => cases haction
  | worker i a =>
    cases haction
    have hspawned := only_spawned h hmain fun run g token => setsNone_worker b run g filter token
    exact h.of_worker hws hspawned hev token rfl

/-- A stop token that is handed out was not set before. -/
theorem fresh_of_newToken (h : s.Plays T s') {g token : Nat}
    (hnew : Event.main ⟨.act (.newToken g), token⟩ ∈ T) : s.engine.tokenSet token = false := by
  obtain ⟨U, V, rfl⟩ := List.append_of_mem hnew
  obtain ⟨s₁, s₂, hU, hstep, -⟩ := h.exists_step
  have htoken : token = s₁.engine.tokens.length := by
    rcases hstep.engine_cases with ⟨a, ha, hanswer, -⟩ | ⟨hnone, -⟩
    · cases ha
      exact hanswer
    · cases hnone
  rw [Engine.tokenSet, htoken, List.getD_eq_getElem?_getD, List.getElem?_eq_none hU.length_tokens,
    Option.getD_none]

/-- A stop token is found set because somebody has asked for it, or on account of an abort. -/
theorem Told.stopped_origin (h : Told b filter s T s') (hstart : s.engine.tokens = [])
    (hstops : StopsNobody T.mainTrail) {i token : Nat}
    (hseen : Event.worker i ⟨.stopped token, true⟩ ∈ T) : StopAsked T := by
  have hworkers : ∀ w ∈ s.workers, w.Only fun op => ∀ token, op ≠ .setToken token := by
    rw [h.workers]
    exact List.forall_mem_nil _
  refine stopAsked_of_seen h.plays (setsNone_of_plays h.plays h.main hworkers hstops) ?_ hseen
  rw [Engine.tokenSet, hstart]
  rfl

end Stop

section Judged

theorem state_take_ne_passed {v : Standing} {verdict : Verdict}
    (h : v.state ≠ .passed ∨ (Standing.ofVerdict? verdict).isSome) :
    (v.take verdict).state ≠ .passed := by
  cases hverdict : Standing.ofVerdict? verdict with
  | none =>
    rw [Standing.take, hverdict]
    rw [hverdict] at h
    exact h.resolve_right Bool.false_ne_true
  | some w =>
    have hw : w.state ≠ .passed := by
      cases verdict with
      | findings compliant nonCompliant =>
        simp only [Standing.ofVerdict?] at hverdict
        split at hverdict
        · cases hverdict
          simp
        · split at hverdict
          · cases hverdict
            simp
          · cases hverdict
      | _ =>
        cases hverdict
        simp
    simp only [Standing.take, hverdict]
    split
    · rename_i hkept
      rcases hkept with hstate | ⟨hstate, -⟩ <;> simp [hstate]
    · exact hw

/-- The check is there, and has not passed. -/
def NotPassed (r : CheckRef) (e : Engine κ) : Prop :=
  ∃ v, e.standing? r = some v ∧ v.state ≠ .passed

theorem NotPassed.apply {r : CheckRef} {e : Engine κ} (h : NotPassed r e) (op : Action κ) :
    NotPassed r (op.apply e).2 := by
  obtain ⟨v, hv, hstate⟩ := h
  refine ⟨_, op.standing?_apply_of_some hv, ?_⟩
  unfold Standing.after
  cases op.verdictOn? r with
  | none => exact hstate
  | some verdict => exact state_take_ne_passed (.inl hstate)

/-- A check on which a verdict has been brought that does not let it pass has not passed, whatever
came after the verdict. -/
theorem notPassed_of_judged (h : s.Plays T s') {r : CheckRef} {c : Check κ}
    (hthere : s.engine.definition? r = some c) (hjudged : Judged T.actions r) :
    NotPassed r s'.engine := by
  obtain ⟨a, ha, verdict, hverdict, hcondemns⟩ := hjudged
  obtain ⟨ev, hev, haction⟩ := List.mem_filterMap.mp ha
  obtain ⟨U, V, rfl⟩ := List.append_of_mem hev
  obtain ⟨s₁, s₂, hU, hstep, hV⟩ := h.exists_step
  have hafter : NotPassed r s₂.engine := by
    rcases hstep.engine_cases with ⟨a', ha', -, hengine⟩ | ⟨hnone, -⟩
    · cases ha'.symm.trans haction
      obtain ⟨v, hv⟩ := exists_standing_iff.mpr ⟨c, hU.grows r c hthere⟩
      rw [hengine]
      refine ⟨_, a.1.standing?_apply_of_some hv, ?_⟩
      rw [hverdict]
      exact state_take_ne_passed (.inr hcondemns)
    · cases hnone.symm.trans haction
  exact hV.effect (K := fun e e' => NotPassed r e → NotPassed r e')
    ⟨fun _ h => h, fun h h' hnot => h' (h hnot)⟩ (fun _ _ _ h => h)
    (fun a _ e hnot => hnot.apply a.1) hafter

end Judged

end Conformance.Run
