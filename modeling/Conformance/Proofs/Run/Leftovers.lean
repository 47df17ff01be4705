import Conformance.Proofs.Run.Bookkeeping

/-!
Workers that are left over. A run gets the next number when it begins to take in signals, and its
workers tell of completions under this number. So whoever is left over from earlier runs may send
what it likes, but a completion that a run takes in was told of by one of its own workers.
-/
namespace Conformance

variable {κ α : Type}

section Numbers

theorem Engine.run_send (e : Engine κ) (run : Nat) (signal : Signal) :
    (e.send run signal).inbox.run = e.inbox.run := by
  unfold send
  split <;> rfl

theorem Engine.send_of_deaf {e : Engine κ} (h : e.inbox.listening = false) (run : Nat)
    (signal : Signal) : e.send run signal = e := by
  rw [send, h]
  rfl

/-- A signal comes in that was not there before only if it is sent to the run in flight. -/
theorem Engine.run_eq_of_send {e : Engine κ} {run : Nat} {signal : Signal}
    (hnew : signal ∉ e.inbox.signals) (h : signal ∈ (e.send run signal).inbox.signals) :
    run = e.inbox.run := by
  unfold send at h
  split at h
  · rename_i hlistening
    exact (beq_iff_eq.mp (Bool.and_eq_true_iff.mp hlistening).2).symm
  · exact absurd h hnew

/-- An operation, with its answer, that brings a signal to a run of this number or a later one. -/
inductive Brings (first : Nat) : Prog.Exchange (@Action.Resp κ) → Signal → Prop
  | sent {number : Nat} (signal : Signal) (h : first ≤ number) :
      Brings first ⟨.send number signal, ()⟩ signal
  | asked (r : CheckRef) (id reason : String) (g : Nat) :
      Brings first ⟨.request (.abort r reason), Request.abortMessage id reason⟩
        (.abort g (Request.abortMessage id reason))
  | interrupted : Brings first ⟨.request .interrupt, true⟩ .interrupted

theorem Brings.mono {first number : Nat} {a : Prog.Exchange (@Action.Resp κ)} {signal : Signal}
    (h : Brings number a signal) (hle : first ≤ number) : Brings first a signal := by
  cases h with
  | sent _ h => exact .sent signal (Nat.le_trans hle h)
  | asked r id reason g => exact .asked r id reason g
  | interrupted => exact .interrupted

/-- A signal comes in that was not there before only if the operation brings it. -/
theorem Action.brings_of_apply (op : Action κ) {e : Engine κ} {signal : Signal}
    (hnew : signal ∉ e.inbox.signals) (h : signal ∈ (op.apply e).2.inbox.signals) :
    Brings e.inbox.run ⟨op, (op.apply e).1⟩ signal := by
  cases op with
  | send number sent =>
    obtain rfl := (Engine.mem_signals_send h).resolve_left hnew
    exact .sent signal (Nat.le_of_eq (Engine.run_eq_of_send hnew h).symm)
  | request op =>
    cases op with
    | judge r verdict =>
      have hsame : signal ∈ (e.judge r verdict).inbox.signals := h
      rw [e.inbox_judge r verdict] at hsame
      exact absurd hsame hnew
    | register g check =>
      have hsame : signal ∈ (e.register g check).inbox.signals := h
      rw [e.inbox_register g check] at hsame
      exact absurd hsame hnew
    | abort r reason =>
      cases hcheck : e.check? r with
      | none =>
        simp only [Action.apply, Request.apply, hcheck] at h
        exact absurd h hnew
      | some c =>
        cases hhandle : c.handle with
        | none =>
          simp only [Action.apply, Request.apply, hcheck, hhandle] at h
          exact absurd h hnew
        | some handle =>
          have hasked : (Action.request (.abort r reason)).apply e =
              (Request.abortMessage c.check.id reason, e.send handle.run
                (.abort handle.group (Request.abortMessage c.check.id reason))) := by
            simp only [Action.apply, Request.apply, hcheck, hhandle]
          rw [hasked] at h ⊢
          obtain rfl := (Engine.mem_signals_send h).resolve_left hnew
          exact .asked r c.check.id reason handle.group
    | stop g =>
      simp only [Action.apply, Request.apply] at h
      split at h <;> exact absurd h hnew
    | interrupt =>
      obtain rfl := (Engine.mem_signals_send h).resolve_left hnew
      have hheard : (Action.request (κ := κ) .interrupt).apply e =
          (true, e.send e.inbox.run .interrupted) := by
        cases hlistening : e.inbox.listening with
        | true => exact Prod.ext hlistening rfl
        | false =>
          have hlost : (Action.apply (.request .interrupt) e).2 = e :=
            Engine.send_of_deaf hlistening _ _
          rw [hlost] at h
          exact absurd h hnew
      rw [hheard]
      exact .interrupted
    | _ => exact absurd h hnew
  | _ => exact absurd h hnew

theorem Request.run_apply (op : Request κ) (e : Engine κ) :
    (op.apply e).2.inbox.run = e.inbox.run := by
  cases op with
  | judge r verdict => rw [apply, e.inbox_judge r verdict]
  | register g check => rw [apply, e.inbox_register g check]
  | abort r reason =>
    simp only [apply]
    split
    · rfl
    · split
      · exact e.run_send _ _
      · rfl
  | stop g =>
    simp only [apply]
    split <;> rfl
  | interrupt => exact e.run_send _ _
  | _ => rfl

theorem Action.run_apply (op : Action κ) (e : Engine κ) :
    (op.apply e).2.inbox.run = e.inbox.run := by
  cases op with
  | request op => exact op.run_apply e
  | send run signal => exact e.run_send run signal
  | _ => rfl

namespace Scene

variable {s s' : Scene κ α} {T : Story κ} {ev : Event κ}

theorem Step.run_le (h : Step s ev s') : s.engine.inbox.run ≤ s'.engine.inbox.run := by
  cases h with
  | act op next ws e => exact Nat.le_of_eq (op.run_apply e).symm
  | work p e => exact Nat.le_of_eq (Action.run_apply _ e).symm
  | outside op p ws e => exact Nat.le_of_eq (op.run_apply e).symm
  | attach => exact Nat.le_succ _
  | _ => exact Nat.le_refl _

theorem Plays.run_le (h : Plays s T s') : s.engine.inbox.run ≤ s'.engine.inbox.run := by
  induction h with
  | start => exact Nat.le_refl _
  | step _ hstep ih => exact Nat.le_trans ih hstep.run_le

/-- A run has a number that no run before it had. -/
theorem Plays.number (h : Plays s T s') {number : Nat}
    (hread : Event.main ⟨.attach, number⟩ ∈ T) :
    s.engine.inbox.run < number ∧ number ≤ s'.engine.inbox.run := by
  obtain ⟨U, V, rfl⟩ := List.append_of_mem hread
  obtain ⟨s₁, s₂, hU, hstep, hV⟩ := h.exists_step
  cases hstep
  exact ⟨Nat.lt_succ_of_le hU.run_le, hV.run_le⟩

/-- A signal that has come in was brought by somebody to this run or to a later one. -/
theorem Plays.exists_bringer (h : Plays s T s') {signal : Signal}
    (hmem : signal ∈ s'.engine.inbox.signals) : signal ∈ s.engine.inbox.signals ∨
      ∃ ev ∈ T, ∃ a, ev.action? = some a ∧ Brings s.engine.inbox.run a signal := by
  induction h with
  | start => exact .inl hmem
  | @step s₁ s₂ T ev hplays hstep ih =>
    by_cases hbefore : signal ∈ s₁.engine.inbox.signals
    · refine (ih hbefore).imp_right ?_
      rintro ⟨ev', hev', hbrings⟩
      exact ⟨ev', List.mem_append_left _ hev', hbrings⟩
    · refine .inr ⟨ev, List.mem_append_right _ List.mem_cons_self, ?_⟩
      rcases hstep.engine_cases with ⟨⟨op, answer⟩, hev, hanswer, hengine⟩ | ⟨hnone, -⟩
      · obtain rfl : answer = (op.apply s₁.engine).1 := hanswer
        rw [hengine] at hmem
        exact ⟨_, hev, (op.brings_of_apply hbefore hmem).mono hplays.run_le⟩
      · cases hstep with
        | attach => cases hmem
        | await next ws hawait => exact absurd (Run.mem_of_awaitGroup hawait hmem) hbefore
        | act => cases hnone
        | work => cases hnone
        | outside => cases hnone
        | _ => exact absurd hmem hbefore

end Scene

end Numbers

namespace Run

open Conformance.Group Scene

section Bygone

/-- The worker tells of nothing to runs after the one of this number. -/
def Bygone (n : Nat) (w : Worker κ Unit) : Prop :=
  w.Only fun op => ∀ number signal, op = .send number signal → number ≤ n

variable {n : Nat} {s s' : Scene κ α} {T : Story κ}

theorem Bygone.mono {w : Worker κ Unit} (h : Bygone n w) {m : Nat} (hle : n ≤ m) : Bygone m w :=
  Prog.Only.mono h fun _ hop number signal hsend => Nat.le_trans (hop number signal hsend) hle

theorem bygone_worker (b : Behaviour κ) (run g : Nat) (filter : Label.Filter) (token : Nat) :
    Bygone run (worker b run g filter token) := by
  refine (own_worker b run g filter token).mono ?_
  rintro _ hown number signal rfl
  rcases hown with hown | ⟨outcome, hsend⟩
  · exact absurd hown id
  · cases hsend
    exact Nat.le_refl _

variable {p : Plan κ} {g : Nat} {gs : List Nat} {st st' : Progress} {t : MainTrail κ}
  {missing : Option Catalog.MissingEntry} {w : Worker κ Unit}

/-- The worker that is spawned at the turn of a group is the one of the group in this run. -/
theorem Visit.bygone (h : Visit p g st t st') {g' : Nat} (hmem : ⟨.spawn g' w, ()⟩ ∈ t) :
    Bygone p.run w := by
  have hlabels {reason : String} {cursor : Option Nat} {checks : List (Check κ)} :
      ⟨.spawn g' w, ()⟩ ∉ labelTrail p.filter g reason cursor checks := by simp [labelTrail]
  cases h with
  | left => simp [hlabels] at hmem
  | expired => simp [hlabels] at hmem
  | @interrupted _ token =>
    obtain ⟨-, rfl⟩ : g' = g ∧ w = worker p.behaviour p.run g p.filter token := by
      simpa [hlabels] using hmem
    exact bygone_worker _ _ _ _ _
  | @completed _ token =>
    obtain ⟨-, rfl⟩ : g' = g ∧ w = worker p.behaviour p.run g p.filter token := by
      simpa using hmem
    exact bygone_worker _ _ _ _ _

theorem bygone_of_runGroups (h : (runGroups p st gs).Goes t (.ok (st', missing)))
    (hmem : ⟨.spawn g w, ()⟩ ∈ t) : Bygone p.run w := by
  induction gs generalizing st t with
  | nil =>
    rw [(Prog.goes_done h).1] at hmem
    cases hmem
  | cons g' gs ih =>
    obtain ⟨t₁, t₂, t₃, s₁, results, first, rfl, hvisit, hrecord, hend⟩ := goes_runGroups_cons h
    rcases List.mem_append.mp hmem with hturn | hrest
    · exact hvisit.bygone hturn
    · rcases List.mem_append.mp hrest with hrecorded | hlater
      · obtain ⟨u, -, rfl⟩ := goes_ofCallback hrecord
        obtain ⟨a, -, ha⟩ := List.mem_map.mp hrecorded
        cases ha
      · rcases hend with ⟨-, -, -, rfl⟩ | ⟨-, hothers⟩
        · cases hlater
        · exact ih hothers hlater

end Bygone

section Completion

variable {b : Behaviour κ} {filter : Label.Filter} {limit : Option Nat} {catalog : Catalog}
  {results : Results} {T : Story κ} {s' : Scene κ (Results × Answer)} {ws : List (Worker κ Unit)}
  {e : Engine κ}

/-- What a run finds in its inbox was brought by a request after it had attached, or a worker of the
run has told of it. -/
theorem brought_to_run (h : Plays ⟨run b filter limit catalog results, ws, e⟩ T s')
    (hws : ∀ w ∈ ws, Bygone e.inbox.run w) {number : Nat}
    (hattached : Event.main ⟨.attach, number⟩ ∈ T) {signal : Signal}
    (hmem : signal ∈ s'.engine.inbox.signals) :
    (∃ ev ∈ T, ∃ op answer, ev.action? = some ⟨.request op, answer⟩ ∧
      Brings e.inbox.run ⟨.request op, answer⟩ signal) ∨
    ∃ i target, ws.length ≤ i ∧ Event.worker i ⟨.send target signal, ()⟩ ∈ T := by
  obtain ⟨U, V, rfl⟩ := List.append_of_mem hattached
  obtain ⟨s₁, s₂, hU, hstep, hV⟩ := h.exists_step
  have hnumber : s₁.engine.inbox.run < s₂.engine.inbox.run ∧ s₂.engine.inbox.signals = [] := by
    cases hstep
    exact ⟨Nat.lt_succ_self _, rfl⟩
  have hfirst : e.inbox.run ≤ s₁.engine.inbox.run := hU.run_le
  rcases hV.exists_bringer hmem with hold | ⟨ev, hev, ⟨op, answer⟩, haction, hbrings⟩
  · rw [hnumber.2] at hold
    cases hold
  have hevent : ev ∈ U ++ Event.main ⟨.attach, number⟩ :: V :=
    List.mem_append_right _ (List.mem_cons_of_mem _ hev)
  cases op with
  | request op => exact .inl ⟨ev, hevent, op, answer, haction, hbrings.mono (by omega)⟩
  | send target sent =>
    refine .inr ?_
    cases hbrings with
    | sent _ hle =>
      cases ev with
      | main a =>
        obtain ⟨op, answer⟩ := a
        cases op with
        | act op =>
          cases haction
          exact absurd ((mainly_run b filter limit catalog results).reaches h.main_reaches _
            (Story.mem_mainTrail hevent)) id
        | _ => cases haction
      | outside => cases haction
      | worker i a =>
        cases haction
        refine ⟨i, target, ?_, hevent⟩
        by_contra hold
        obtain ⟨w, q, hw, hreaches⟩ := h.reaches_of_mem hevent
        rw [List.getElem?_append_left (Nat.lt_of_not_le hold)] at hw
        have htarget := (hws w (List.mem_of_getElem? hw)).reaches hreaches _
          (Story.mem_workerTrail hevent) target _ rfl
        omega
  | _ => cases hbrings

/-- A completion that has come in was sent by a worker of the run. -/
theorem completion_sent (h : Plays ⟨run b filter limit catalog results, ws, e⟩ T s')
    (hws : ∀ w ∈ ws, Bygone e.inbox.run w) {number : Nat}
    (hattached : Event.main ⟨.attach, number⟩ ∈ T) {g : Nat} {outcome : Outcome}
    (hmem : .done g outcome ∈ s'.engine.inbox.signals) :
    ∃ i target, ws.length ≤ i ∧ Event.worker i ⟨.send target (.done g outcome), ()⟩ ∈ T := by
  refine (brought_to_run h hws hattached hmem).resolve_left ?_
  rintro ⟨ev, -, op, answer, -, hbrings⟩
  cases hbrings

/-- A run attaches before it does anything else. -/
theorem attached_before {U V : Story κ} {a : Prog.Exchange (@Move.Resp κ)} {number : Nat}
    {t : MainTrail κ} (hattached : Story.mainTrail (U ++ .main a :: V) = ⟨.attach, number⟩ :: t)
    (ha : a.1 ≠ .attach) : Event.main ⟨.attach, number⟩ ∈ U := by
  rw [Story.mainTrail, List.filterMap_append] at hattached
  rcases List.append_eq_cons_iff.mp hattached with ⟨-, hlater⟩ | ⟨t', htrail, -⟩
  · have hfirst : a :: V.filterMap Event.main? = ⟨.attach, number⟩ :: t := hlater
    cases hfirst
    exact absurd rfl ha
  · refine Story.mem_of_mainTrail ?_
    rw [Story.mainTrail, htrail]
    exact List.mem_cons_self

/-- A completion that has ended a wait was sent by a worker of the run. -/
theorem sent_of_accepted (h : Plays ⟨run b filter limit catalog results, ws, e⟩ T s')
    (hws : ∀ w ∈ ws, Bygone e.inbox.run w) {number : Nat} {t : MainTrail κ}
    (hattached : T.mainTrail = ⟨.attach, number⟩ :: t) {g : Nat} {deadline : Option Nat}
    {outcome : Outcome} (haccepted : Event.main ⟨.await g deadline, .done outcome⟩ ∈ T) :
    ∃ i target, ws.length ≤ i ∧ Event.worker i ⟨.send target (.done g outcome), ()⟩ ∈ T := by
  obtain ⟨U, V, rfl⟩ := List.append_of_mem haccepted
  obtain ⟨s₁, s₂, hU, hstep, -⟩ := h.exists_step
  obtain ⟨i, target, hi, hsent⟩ :=
    completion_sent hU hws (attached_before hattached nofun) (mem_signals_of_accepted hstep)
  exact ⟨i, target, hi, List.mem_append_left _ hsent⟩

end Completion

section Lived

variable {o : Orchestrator κ} {ws : List (Worker κ Unit)} {b : Behaviour κ} {filter : Label.Filter}
  {limit : Option Nat} {catalog : Catalog} {results results' : Results} {answer : Answer}
  {e : Engine κ} {T : Story κ} {s' : Scene κ (Results × Answer)}

/-- The workers that a run leaves over tell of nothing to later runs. -/
theorem bygone_of_run (h : Plays ⟨run b filter limit catalog results, ws, e⟩ T s')
    (hdone : s'.main = .done (results', answer)) (hws : ∀ w ∈ ws, Bygone e.inbox.run w) :
    ∀ w ∈ s'.workers, Bygone s'.engine.inbox.run w := by
  have hgoes := h.main_reaches
  rw [hdone] at hgoes
  obtain ⟨number, began, count, t₁, t₂, st, missing, htrail, hgroups, -, hnobody, -⟩ :=
    goes_run hgoes.goes_of_done
  have hattached : ⟨.attach, number⟩ ∈ T.mainTrail := by simp [htrail]
  have hnumber := h.number (Story.mem_of_mainTrail hattached)
  refine h.only (fun w hw => (hws w hw).mono h.run_le) fun w hw => ?_
  obtain ⟨g, hspawn⟩ := Story.exists_spawn hw
  have hlast : ⟨.spawn g w, ()⟩ ∉ t₂ := fun hmem => by
    cases List.filterMap_eq_nil_iff.mp hnobody _ hmem
  have hmem : ⟨.spawn g w, ()⟩ ∈ t₁ := by simpa [htrail, hlast] using hspawn
  exact (bygone_of_runGroups hgroups hmem).mono hnumber.2

/-- Nobody is spawned when the thread that runs all groups has come to its end. -/
theorem spawned_of_done {value : α} {s' : Scene κ α} (h : Plays ⟨.done value, ws, e⟩ T s') :
    T.spawned = [] := by
  refine List.eq_nil_iff_forall_not_mem.mpr fun w hw => ?_
  obtain ⟨g, hspawn⟩ := Story.exists_spawn hw
  rw [Prog.reaches_done h.main_reaches] at hspawn
  cases hspawn

/-- Nobody who is left over sends anything to a run that is still to come. -/
theorem Lived.bygone (h : Lived o ws) : ∀ w ∈ ws, Bygone o.engine.inbox.run w := by
  induction h with
  | new => exact List.forall_mem_nil _
  | @group o ws _ name ih =>
    unfold Orchestrator.group
    cases o.findGroup? name <;> exact ih
  | setHooks _ g hooks ih => exact ih
  | addCatalog _ _ ih => exact ih
  | run _ hplays ih => exact bygone_of_run hplays rfl ih
  | between _ hplays ih =>
    refine hplays.only (fun w hw => (ih w hw).mono hplays.run_le) ?_
    rw [spawned_of_done hplays]
    exact List.forall_mem_nil _

/-- Whatever holds of all operations of the workers of groups holds of those who are left over. -/
theorem Lived.only {P : Action κ → Prop}
    (hP : ∀ b run g filter token, (worker b run g filter token).Only P) (h : Lived o ws) :
    ∀ w ∈ ws, w.Only P := by
  induction h with
  | new => exact List.forall_mem_nil _
  | group _ name ih => exact ih
  | setHooks _ g hooks ih => exact ih
  | addCatalog _ _ ih => exact ih
  | @run o ws ws' _ b filter limit T results answer e hplays ih =>
    have hmain := mainly_run b filter limit o.catalog o.results
    exact hplays.only ih (only_spawned hplays hmain fun run g token => hP b run g filter token)
  | between _ hplays ih =>
    refine hplays.only ih ?_
    rw [spawned_of_done hplays]
    exact List.forall_mem_nil _

end Lived

end Run

end Conformance
