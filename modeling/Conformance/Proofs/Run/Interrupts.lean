import Conformance.Proofs.Run.Awaiting
import Conformance.Proofs.Run.Calm
import Conformance.Proofs.Run.Listening

/-!
Interrupts that come in while a run waits for a group. The wait cannot end with a completion any
more that was not told of before, so that the run is aborted, and from then on it waits for nobody
and goes on to its end by itself. A run that is aborted for an interrupt has accepted it itself.
-/
namespace Conformance

variable {κ α β : Type}

theorem Prog.NeverPanics.rest {Op : Type} {Resp : Op → Type} {p q : Prog Resp α}
    {t : List (Prog.Exchange Resp)} (hp : p.NeverPanics) (h : p.Reaches t q) : q.NeverPanics := by
  induction h with
  | start => exact hp
  | ask _ ih => exact ih (hp _)

namespace Run

open Scene

section Patience

/-- The move is no waiting. -/
def IsSwift : Move κ → Prop
  | .await .. => False
  | _ => True

/-- The program waits for a group only as long as no abort has shown. -/
def Patient : Main κ α → Prop
  | .done _ => True
  | .panic _ => True
  | .ask op next => ∀ answer, (abortMark? ⟨op, answer⟩ = none → Patient (next answer)) ∧
      ∀ mark, abortMark? ⟨op, answer⟩ = some mark → (next answer).Only IsSwift

theorem abortOf_cons (a : Prog.Exchange (@Move.Resp κ)) (t : MainTrail κ) :
    abortOf (a :: t) = (abortMark? a).or (abortOf t) := by
  rw [abortOf, List.findSome?_cons]
  cases abortMark? a <;> rfl

variable {p : Main κ α}

theorem patient_of_swift (h : p.Only IsSwift) : Patient p := by
  induction p with
  | done value => trivial
  | panic q => trivial
  | ask op next ih => exact fun answer => ⟨fun _ => ih answer (h.2 answer), fun _ _ => h.2 answer⟩

theorem Patient.bind {f : α → Main κ β} (hp : Patient p)
    (hpatient : ∀ t value, p.Goes t (.ok value) → abortOf t = none → Patient (f value))
    (hswift : ∀ t value mark, p.Goes t (.ok value) → abortOf t = some mark →
      (f value).Only IsSwift) : Patient (p.bind f) := by
  induction p with
  | done value => exact hpatient [] value (.done value) rfl
  | panic q => trivial
  | ask op next ih =>
    intro answer
    refine ⟨fun hnone => ih answer ((hp answer).1 hnone) ?_ ?_, fun mark hmark => ?_⟩
    · intro t value hgoes ht
      refine hpatient _ value (.ask hgoes) ?_
      rw [abortOf_cons, hnone, ht]
      rfl
    · intro t value mark hgoes ht
      refine hswift _ value mark (.ask hgoes) ?_
      rw [abortOf_cons, hnone, ht]
      rfl
    · refine Prog.Only.bind_goes ((hp answer).2 mark hmark) fun t value hgoes => ?_
      refine hswift _ value mark (.ask hgoes) ?_
      rw [abortOf_cons, hmark]
      rfl

theorem Patient.bind_swift {f : α → Main κ β} (hp : Patient p)
    (hf : ∀ value, (f value).Only IsSwift) : Patient (p.bind f) :=
  hp.bind (fun _ value _ _ => patient_of_swift (hf value)) fun _ value _ _ _ => hf value

/-- Where such a program waits, no abort has shown, and after one it will not wait any more. -/
theorem Patient.waiting (hp : Patient p) {t : MainTrail κ} {g : Nat} {deadline : Option Nat}
    {next : Wait → Main κ α} (h : p.Reaches t (.ask (.await g deadline) next)) :
    abortOf t = none ∧ ∀ reason, (next (.abort reason)).Only IsSwift := by
  generalize hq : (Prog.ask (.await g deadline) next : Main κ α) = q at h
  induction h with
  | start p =>
    subst hq
    exact ⟨rfl, fun reason => (hp (.abort reason)).2 (g, reason) rfl⟩
  | @ask op f answer t q h ih =>
    rw [abortOf_cons]
    cases hmark : abortMark? ⟨op, answer⟩ with
    | none => exact ih ((hp answer).1 hmark) hq
    | some mark =>
      have hswift := ((hp answer).2 mark hmark).rest h
      subst hq
      exact absurd hswift.1 id

variable {plan : Plan κ} {s : Progress}

theorem swift_ofCallback (p : Callback κ α) : (ofCallback p).Only IsSwift :=
  Prog.only_lift (fun _ => trivial) p

theorem swift_labelGroup (plan : Plan κ) (s : Progress) (g : Nat) (reason : String) :
    (labelGroup plan s g reason).Only IsSwift := (swift_ofCallback _).bind fun _ => trivial

/-- A run that has been aborted waits for nobody. -/
theorem swift_runGroups {reason : String} (habort : s.abort = some reason) (gs : List Nat) :
    (runGroups plan s gs).Only IsSwift := by
  induction gs generalizing s with
  | nil => trivial
  | cons g gs ih =>
    obtain ⟨abort, errors, failed, results⟩ := s
    obtain rfl : abort = some reason := habort
    refine Prog.Only.bind_goes ?_ fun t s₁ hgoes => ?_
    · exact (only_move (.act .now) trivial).bind fun _ => swift_labelGroup plan _ g reason
    · have hkept : s₁.abort = some reason := by
        cases visit_of_goes hgoes with
        | left => rfl
        | expired hnone => cases hnone
        | interrupted hnone => cases hnone
        | completed hnone => cases hnone
      refine (swift_ofCallback _).bind ?_
      rintro ⟨results, missing⟩
      cases missing with
      | some missing => trivial
      | none => exact ih hkept

theorem patient_runGroup (plan : Plan κ) (s : Progress) (g : Nat) :
    Patient (runGroup plan s g) := by
  obtain ⟨abort, errors, failed, results⟩ := s
  cases abort with
  | some reason =>
    exact patient_of_swift
      ((only_move (.act .now) trivial).bind fun _ => swift_labelGroup plan _ g reason)
  | none =>
    rw [runGroup_eq]
    refine fun time => ⟨fun _ => ?_, nofun⟩
    by_cases hpast : isPast plan.deadline time = true
    · simp only [Prog.bind, hpast, if_true]
      exact patient_of_swift (swift_labelGroup plan _ g timeoutReason)
    · simp only [Prog.bind, hpast]
      refine fun token => ⟨fun _ => fun _ => ⟨fun _ wait => ⟨?_, ?_⟩, nofun⟩, nofun⟩
      · intro hnone
        cases wait with
        | done outcome => trivial
        | abort reason => cases hnone
      · intro mark hmark
        cases wait with
        | done outcome => cases hmark
        | abort reason =>
          exact (only_move (.act (.setToken token)) trivial).bind fun _ =>
            swift_labelGroup plan _ g reason

theorem patient_runGroups (plan : Plan κ) (s : Progress) (gs : List Nat) :
    Patient (runGroups plan s gs) := by
  induction gs generalizing s with
  | nil => trivial
  | cons g gs ih =>
    cases habort : s.abort with
    | some reason => exact patient_of_swift (swift_runGroups habort (g :: gs))
    | none =>
      refine (patient_runGroup plan s g).bind ?_ ?_
      · intro t s₁ hgoes ht
        refine (patient_of_swift (swift_ofCallback _)).bind ?_ ?_
        · rintro u ⟨results, missing⟩ - -
          cases missing with
          | some missing => trivial
          | none => exact ih _
        · intro u value mark hrecord hu
          obtain ⟨-, hquiet, -⟩ := quiet_recordGroup hrecord
          rw [hquiet] at hu
          cases hu
      · intro t s₁ mark hgoes ht
        have hkept : s₁.abort = some mark.2 := by
          rcases ((visit_of_goes hgoes).aborted_cases habort).2 with ⟨hnone, -⟩ |
            ⟨reason, hmark, hkept⟩
          · cases hnone.symm.trans ht
          · cases hmark.symm.trans ht
            exact hkept
        refine (swift_ofCallback _).bind ?_
        rintro ⟨results, missing⟩
        cases missing with
        | some missing => trivial
        | none => exact swift_runGroups (s := { s₁ with results := results }) hkept gs

theorem patient_run (b : Behaviour κ) (filter : Label.Filter) (limit : Option Nat)
    (catalog : Catalog) (results : Results) : Patient (run b filter limit catalog results) := by
  refine fun number => ⟨fun _ => fun began => ⟨fun _ => fun count => ⟨fun _ => ?_, nofun⟩, nofun⟩,
    nofun⟩
  refine (patient_runGroups _ _ _).bind_swift ?_
  rintro ⟨s, missing⟩
  cases missing with
  | some missing => exact (only_move .detach trivial).bind fun _ => trivial
  | none =>
    refine Prog.Only.bind ?_ fun _ => (only_move .detach trivial).bind fun _ => trivial
    refine (questions_report _ _ _ _).mono fun op hop => ?_
    cases op with
    | await => exact absurd hop id
    | _ => trivial

end Patience

section Waits

variable {s s' : Scene κ α} {T : Story κ} {ev : Event κ} {g : Nat} {deadline : Option Nat}
  {next : Wait → Main κ α} {before after : List Signal}

/-- An interrupt in the queue ends the wait with its reason, unless a signal before it does. -/
theorem awaitGroup_interrupted (h : ∀ outcome, .done g outcome ∉ before) (after : List Signal) :
    ∃ reason later, awaitGroup g (before ++ .interrupted :: after) = some (.abort reason, later) ∧
      (reason = interruptReason ∨ .abort g reason ∈ before) := by
  induction before with
  | nil => exact ⟨_, _, awaitGroup_of_decides .interrupted after, .inl rfl⟩
  | cons signal before ih =>
    obtain ⟨reason, later, hlater, hreason⟩ :=
      ih fun outcome hmem => h outcome (List.mem_cons_of_mem _ hmem)
    cases hends : signal.ends g with
    | none =>
      refine ⟨reason, later, ?_, hreason.imp_right (List.mem_cons_of_mem _)⟩
      rw [List.cons_append, awaitGroup_of_isForeign (Signal.ends_eq_none_iff.mp hends), hlater]
    | some wait =>
      have hdecides := Signal.ends_eq_some_iff.mp hends
      rw [List.cons_append, awaitGroup_of_decides hdecides]
      cases hdecides with
      | done outcome => exact absurd List.mem_cons_self (h outcome)
      | abort reason => exact ⟨reason, _, rfl, .inr List.mem_cons_self⟩
      | interrupted => exact ⟨interruptReason, _, rfl, .inl rfl⟩

/-- An interrupt that is heard comes in behind the signals that are queued already. -/
theorem signals_of_heard (h : Step s ev s') (hev : ev.Interrupts true) :
    s'.engine.inbox.signals = s.engine.inbox.signals ++ [.interrupted] := by
  obtain ⟨hlistening, hengine⟩ := h.interrupt hev
  rw [hengine, Engine.send, ← hlistening]
  simp

theorem main_of_interrupt {heard : Bool} (h : Step s ev s') (hev : ev.Interrupts heard)
    (hwait : s.main = .ask (.await g deadline) next) : s'.main = s.main := by
  rcases h.main_cases with ⟨op, f, answer, hmain, hask, -⟩ | ⟨-, hsame⟩
  · rw [hwait] at hask
    cases hask
    cases ev with
    | main a =>
      cases hmain
      cases hev
    | worker => cases hmain
    | outside => cases hmain
  · exact hsame

/-- How an interrupted wait has ended: for the interrupt, for an abort that was queued before it, or
with the deadline, the interrupt not having been taken from the queue. -/
structure Broken (g : Nat) (deadline : Option Nat) (before : List Signal) (s : Scene κ α)
    (V : Story κ) (reason : String) (earlier later : Story κ) : Prop where
  story_eq : V = earlier ++ .main ⟨.await g deadline, .abort reason⟩ :: later
  idle : earlier.mainTrail = []
  reason_cases : reason = interruptReason ∨ .abort g reason ∈ before ∨
    reason = timeoutReason ∧ deadline.isSome ∧
      ∃ t, Plays s earlier t ∧ .interrupted ∈ t.engine.inbox.signals

/-- A wait with an interrupt in the queue goes on, with the interrupt in the queue, or has ended
with an abort. -/
theorem interrupted_cases (h : Plays s T s') (hwait : s.main = .ask (.await g deadline) next)
    (hsignals : s.engine.inbox.signals = before ++ .interrupted :: after)
    (hdone : ∀ outcome, .done g outcome ∉ before) :
    (s'.main = s.main ∧
      ∃ arrived, s'.engine.inbox.signals = before ++ .interrupted :: (after ++ arrived)) ∨
    ∃ reason earlier later, Broken g deadline before s T reason earlier later ∧
      (next (.abort reason)).Reaches later.mainTrail s'.main := by
  have hqueued {U : Story κ} {t : Scene κ α} (hU : Plays s U t) (hidle : U.mainTrail = []) :
      t.main = s.main ∧
        ∃ arrived, t.engine.inbox.signals = before ++ .interrupted :: (after ++ arrived) := by
    obtain ⟨hmain, arrived, harrived⟩ := hU.waiting hidle
    exact ⟨hmain, arrived, by rw [← harrived, hsignals, List.append_assoc, List.cons_append]⟩
  have hreaches := h.main_reaches
  rw [hwait] at hreaches
  rcases Prog.reaches_ask hreaches with hidle | ⟨wait, t, htrail, hnext⟩
  · exact .inl (hqueued h hidle)
  · obtain ⟨U, V, rfl, hidle, rfl⟩ := Story.exists_event_of_mainTrail (t := []) htrail
    obtain ⟨s₁, s₂, hU, hstep, -⟩ := h.exists_step
    obtain ⟨-, arrived, hqueue⟩ := hqueued hU hidle
    obtain ⟨reason, later, hends, hreason⟩ := awaitGroup_interrupted hdone (after ++ arrived)
    have hwaits : wait = .abort reason ∨ wait = .abort timeoutReason ∧ deadline.isSome := by
      generalize hev : Event.main ⟨.await g deadline, wait⟩ = ev at hstep
      cases hstep with
      | await f ws hawait =>
        cases hev
        rw [hqueue, hends] at hawait
        cases hawait
        exact .inl rfl
      | timeOut => cases hev; exact .inr ⟨rfl, rfl⟩
      | _ => cases hev
    refine .inr ?_
    rcases hwaits with rfl | ⟨rfl, hdeadline⟩
    · exact ⟨reason, U, V, ⟨rfl, hidle, hreason.imp_right .inl⟩, hnext⟩
    · refine ⟨timeoutReason, U, V, ⟨rfl, hidle, .inr (.inr ⟨rfl, hdeadline, s₁, hU, ?_⟩)⟩, hnext⟩
      rw [hqueue]
      simp

/-- A program that waits for nobody comes to its end by itself. -/
theorem exists_end {p : Main κ α} (hswift : p.Only IsSwift) (hsafe : p.NeverPanics)
    (ws : List (Worker κ Unit)) (e : Engine κ) :
    ∃ T s' value, Plays ⟨p, ws, e⟩ T s' ∧ (∀ ev ∈ T, ev.main?.isSome) ∧ s'.main = .done value := by
  induction p generalizing ws e with
  | done value => exact ⟨[], _, value, .start _, List.forall_mem_nil _, rfl⟩
  | panic q => exact absurd hsafe id
  | ask op next ih =>
    have hstep : ∃ answer ws' e',
        Step ⟨.ask op next, ws, e⟩ (.main ⟨op, answer⟩) ⟨next answer, ws', e'⟩ := by
      cases op with
      | act op => exact ⟨_, _, _, .act op next ws e⟩
      | groupCount => exact ⟨_, _, _, .groupCount next ws e⟩
      | attach => exact ⟨_, _, _, .attach next ws e⟩
      | detach => exact ⟨_, _, _, .detach next ws e⟩
      | spawn g w => exact ⟨_, _, _, .spawn g w next ws e⟩
      | await => exact absurd hswift.1 id
    obtain ⟨answer, ws', e', hstep⟩ := hstep
    obtain ⟨T, s', value, hplays, hmain, hdone⟩ := ih answer (hswift.2 answer) (hsafe answer) ws' e'
    refine ⟨_, s', value, ((Plays.start _).step hstep).trans hplays, ?_, hdone⟩
    exact List.forall_mem_cons.mpr ⟨rfl, hmain⟩

end Waits

section Runs

variable {b : Behaviour κ} {filter : Label.Filter} {limit : Option Nat} {catalog : Catalog}
  {results results' : Results} {report : RunReport} {ws : List (Worker κ Unit)} {e : Engine κ}
  {U V : Story κ} {s₁ s₂ s' : Scene κ (Results × Answer)} {ev : Event κ} {g : Nat}
  {deadline : Option Nat} {next : Wait → Main κ (Results × Answer)}

/-- An interrupted wait ends, and the run goes on to its end by itself. -/
theorem exists_end_of_interrupted
    (hU : Plays ⟨run b filter limit catalog results, ws, e⟩ U s₁)
    (hwait : s₁.main = .ask (.await g deadline) next) (hstep : Step s₁ ev s₂)
    (hev : ev.Interrupts true) (hnone : ∀ outcome, .done g outcome ∉ s₁.engine.inbox.signals)
    (hV : Plays s₂ V s') :
    ∃ T t value, Plays s' T t ∧ (∀ ev ∈ T, ev.main?.isSome) ∧ t.main = .done value := by
  have hmain := main_of_interrupt hstep hev hwait
  have hreaches := hU.main_reaches
  rw [hwait] at hreaches
  obtain ⟨-, hswift⟩ := (patient_run b filter limit catalog results).waiting hreaches
  have hsafe := (neverPanics_run b filter limit catalog results).rest hreaches
  obtain ⟨p, vs, e'⟩ := s'
  rcases interrupted_cases hV (hmain.trans hwait) (signals_of_heard hstep hev) hnone with
    ⟨hsame, arrived, hqueue⟩ | ⟨reason, earlier, later, -, hlater⟩
  · obtain ⟨reason, rest, hends, -⟩ := awaitGroup_interrupted hnone ([] ++ arrived)
    obtain rfl : p = .ask (.await g deadline) next := hsame.trans (hmain.trans hwait)
    obtain ⟨T, t, value, hplays, hown, hdone⟩ := exists_end (hswift reason) (hsafe (.abort reason))
      vs { e' with inbox := { e'.inbox with signals := rest } }
    have hbroken : Step ⟨.ask (.await g deadline) next, vs, e'⟩
        (.main ⟨.await g deadline, .abort reason⟩)
        ⟨next (.abort reason), vs, { e' with inbox := { e'.inbox with signals := rest } }⟩ :=
      .await next vs (hqueue ▸ hends)
    refine ⟨_, t, value, ((Plays.start _).step hbroken).trans hplays, ?_, hdone⟩
    exact List.forall_mem_cons.mpr ⟨rfl, hown⟩
  · exact exists_end ((hswift reason).rest hlater)
      (Prog.NeverPanics.rest (hsafe (.abort reason)) hlater) vs e'

/-- A run with an interrupted wait is aborted, for the reason with which the wait has ended. -/
theorem abortReason_of_interrupted
    (hU : Plays ⟨run b filter limit catalog results, ws, e⟩ U s₁)
    (hwait : s₁.main = .ask (.await g deadline) next) (hstep : Step s₁ ev s₂)
    (hev : ev.Interrupts true) (hnone : ∀ outcome, .done g outcome ∉ s₁.engine.inbox.signals)
    (hV : Plays s₂ V s') (hdone : s'.main = .done (results', .ok report)) :
    ∃ reason earlier later,
      Broken g deadline s₁.engine.inbox.signals s₂ V reason earlier later ∧
      report.abortReason = some reason := by
  have hmain := main_of_interrupt hstep hev hwait
  have hreaches := hU.main_reaches
  rw [hwait] at hreaches
  obtain ⟨hunmarked, -⟩ := (patient_run b filter limit catalog results).waiting hreaches
  rcases interrupted_cases hV (hmain.trans hwait) (signals_of_heard hstep hev) hnone with
    ⟨hsame, -⟩ | ⟨reason, earlier, later, hbroken, hlater⟩
  · rw [hmain, hwait, hdone] at hsame
    cases hsame
  · refine ⟨reason, earlier, later, hbroken, ?_⟩
    have hgoes : (run b filter limit catalog results).Goes
        (U.mainTrail ++ ⟨.await g deadline, .abort reason⟩ :: later.mainTrail)
        (.ok (results', .ok report)) := by
      rw [hdone] at hlater
      exact hreaches.goes (.ask hlater.goes_of_done)
    rw [(abort_of_run hgoes).1 report rfl, abortOf_append, hunmarked, abortOf_cons]
    rfl

end Runs

section Origins

/-- Whoever asks for an abort gives a reason of another form than that of an interrupt. -/
theorem abortMessage_ne_interruptReason (id reason : String) :
    Request.abortMessage id reason ≠ interruptReason := by
  intro h
  have hblank : ' ' ∈ (Request.abortMessage id reason).toList := by
    simp [Request.abortMessage]
  rw [h] at hblank
  exact absurd hblank (by decide)

variable {b : Behaviour κ} {filter : Label.Filter} {limit : Option Nat} {catalog : Catalog}
  {results results' : Results} {report : RunReport} {ws : List (Worker κ Unit)} {e : Engine κ}
  {T U V : Story κ} {s' : Scene κ (Results × Answer)}

/-- A wait of a run that ends for an interrupt does so for one that the run has accepted. -/
theorem exists_heard (h : Plays ⟨run b filter limit catalog results, ws, e⟩ T s')
    (hws : ∀ w ∈ ws, Bygone e.inbox.run w) {g : Nat} {deadline : Option Nat}
    (hended : ⟨.await g deadline, .abort interruptReason⟩ ∈ T.mainTrail) :
    ∃ ev ∈ T, ev.Interrupts true := by
  obtain ⟨U, V, rfl⟩ := List.append_of_mem (Story.mem_of_mainTrail hended)
  obtain ⟨s₁, s₂, hU, hstep, -⟩ := h.exists_step
  rcases attach_of_reaches h.main_reaches with hnil | ⟨number, t, hT, -⟩
  · rw [hnil] at hended
    cases hended
  have hattached := attached_before hT nofun
  have hdecides :
      ∃ signal ∈ s₁.engine.inbox.signals, signal.Decides g (.abort interruptReason) := by
    generalize hev : Event.main ⟨.await g deadline, .abort interruptReason⟩ = ev at hstep
    cases hstep with
    | await next ws hawait =>
      cases hev
      obtain ⟨earlier, signal, hsignals, -, hdecides⟩ := awaitGroup_eq_some_iff.mp hawait
      exact ⟨signal, by simp [hsignals], hdecides⟩
    | timeOut => simp [timeoutReason, interruptReason] at hev
    | _ => cases hev
  obtain ⟨signal, hmem, hdecides⟩ := hdecides
  rcases brought_to_run hU hws hattached hmem with ⟨ev, hev, op, answer, haction, hbrings⟩ |
    ⟨i, target, hi, hsent⟩
  · refine ⟨ev, List.mem_append_left _ hev, ?_⟩
    cases hbrings with
    | interrupted => exact haction
    | asked r id reason g' =>
      generalize hreason : Request.abortMessage id reason = message at hdecides
      cases hdecides
      exact absurd hreason (abortMessage_ne_interruptReason id reason)
  -- A worker of the run tells of nothing but the completion of its group.
  · obtain ⟨number', g', token, -, hworker⟩ := worker_of_plays hU hi hsent
    obtain ⟨name, u, x, rfl, -⟩ :=
      (progressed_of_plays hU hworker).trail_of_send (Story.mem_workerTrail hsent)
    cases hdecides

/-- A run that is reported to be aborted for an interrupt has accepted one. -/
theorem exists_heard_of_report (h : Plays ⟨run b filter limit catalog results, ws, e⟩ T s')
    (hws : ∀ w ∈ ws, Bygone e.inbox.run w) (hdone : s'.main = .done (results', .ok report))
    (habort : report.abortReason = some interruptReason) : ∃ ev ∈ T, ev.Interrupts true := by
  have hgoes := h.main_reaches
  rw [hdone] at hgoes
  rw [(abort_of_run hgoes.goes_of_done).1 report rfl] at habort
  obtain ⟨⟨g, reason⟩, hmark, hreason⟩ := Option.map_eq_some_iff.mp habort
  obtain rfl : reason = interruptReason := hreason
  obtain ⟨a, ha, hshown⟩ := List.exists_of_findSome?_eq_some hmark
  have hended : ∃ deadline, a = ⟨.await g deadline, .abort interruptReason⟩ := by
    unfold abortMark? at hshown
    split at hshown
    · cases hshown
      exact ⟨_, rfl⟩
    · simp [timeoutReason, interruptReason] at hshown
    · cases hshown
  obtain ⟨deadline, rfl⟩ := hended
  exact exists_heard h hws ha

end Origins

section Whole

variable {o : Orchestrator κ} {ws : List (Worker κ Unit)}

/-- By the clock an interrupt in the queue is taken before the deadline. -/
theorem await_interrupted {g : Nat} {e : Engine κ} {before after : List Signal}
    (hsignals : e.inbox.signals = before ++ .interrupted :: after)
    (hnone : ∀ outcome, .done g outcome ∉ before) (deadline : Option Nat) :
    ∃ reason e', Schedule.await g deadline e = (some (.abort reason), e') ∧
      (reason = interruptReason ∨ .abort g reason ∈ before) := by
  obtain ⟨reason, later, hends, hreason⟩ := awaitGroup_interrupted hnone after
  rw [← hsignals] at hends
  refine ⟨reason, { e with inbox := { e.inbox with signals := later } }, ?_, hreason⟩
  simp only [Schedule.await, hends]

/-- For every orchestrator, whatever ran on it before and whoever is left over from that: between
the runs no interrupt is heard, and in a run it is heard exactly from when the run attaches until it
detaches. One that is not heard leaves everything as it is. What has come in and was not taken makes
no difference later: between the runs nobody can tell, and the next run might have gone just as it
did with anything else in the inbox. A run is reported to be aborted for an interrupt only if it has
accepted one itself. And when one is accepted while the run waits for a group, and no worker of the
run has told of its completion yet, then however it goes on, the run can go on to its end by itself
and nobody but outsiders can keep it from that for ever, and if it gives a report then it is
aborted: for the interrupt, for an abort that was asked for before it, or with the deadline, if this
has ended the wait before the interrupt was taken from the queue, which by the clock it never does.
-/
theorem interrupts_reach_the_run_in_flight (ho : Lived o ws) :
    (∀ (T : Story κ) s', Plays ⟨(.done () : Main κ Unit), ws, o.engine⟩ T s' →
      (∀ ev ∈ T, ∀ heard, ev.Interrupts heard → heard = false) ∧
      ∀ signals, Plays ⟨(.done () : Main κ Unit), ws, o.engine.withSignals signals⟩ T
        { s' with engine := s'.engine.withSignals signals }) ∧
    (∀ (α : Type) (s s' : Scene κ α) ev, Step s ev s' → ev.Interrupts false →
      s'.engine = s.engine) ∧
    (∀ b filter limit (T : Story κ) s',
      Plays ⟨run b filter limit o.catalog o.results, ws, o.engine⟩ T s' →
      (T.mainTrail ≠ [] → ∀ signals,
        Plays ⟨run b filter limit o.catalog o.results, ws, o.engine.withSignals signals⟩ T s') ∧
      ∀ results report, s'.main = .done (results, .ok report) →
        report.abortReason = some interruptReason → ∃ ev ∈ T, ev.Interrupts true) ∧
    (∀ b filter limit (U V : Story κ) ev heard s₁ s₂ s',
      Plays ⟨run b filter limit o.catalog o.results, ws, o.engine⟩ U s₁ → Step s₁ ev s₂ →
      Plays s₂ V s' → ev.Interrupts heard →
      (heard = true ↔ InFlight U) ∧
      ∀ g deadline next, heard = true → s₁.main = .ask (.await g deadline) next →
        (∀ i target outcome, Event.worker i ⟨.send target (.done g outcome), ()⟩ ∈ U →
          i < ws.length) →
        (∃ W t value, Plays s' W t ∧ (∀ ev ∈ W, ev.main?.isSome) ∧ t.main = .done value) ∧
        Acc Scene.Next s' ∧
        ∀ results report, s'.main = .done (results, .ok report) → ∃ reason earlier later,
          Broken g deadline s₁.engine.inbox.signals s₂ V reason earlier later ∧
          report.abortReason = some reason) ∧
    ∀ (e : Engine κ) g before after deadline,
      e.inbox.signals = before ++ .interrupted :: after → (∀ outcome, .done g outcome ∉ before) →
      ∃ reason e', Schedule.await g deadline e = (some (.abort reason), e') ∧
        (reason = interruptReason ∨ .abort g reason ∈ before) := by
  refine ⟨fun T s' h => ⟨?_, ?_⟩, fun α s s' ev h hev => ?_,
    fun b filter limit T s' h => ⟨?_, ?_⟩, ?_,
    fun e g before after deadline hsignals hnone => await_interrupted hsignals hnone deadline⟩
  · intro ev hmem heard hev
    obtain ⟨U, V, rfl⟩ := List.append_of_mem hmem
    obtain ⟨s₁, s₂, hU, hstep, -⟩ := h.exists_step
    obtain ⟨hheard, -⟩ := hstep.interrupt hev
    rw [hheard, hU.listening, Prog.reaches_done hU.main_reaches]
    exact ho.deaf
  · exact h.withSignals (Prog.reaches_done h.main_reaches) ho.deaf
  · obtain ⟨hheard, hengine⟩ := h.interrupt hev
    rw [hengine, Engine.send_of_deaf hheard.symm]
  · exact plays_withSignals h ho.deaf
  · exact fun results report hdone habort => exists_heard_of_report h ho.bygone hdone habort
  · intro b filter limit U V ev heard s₁ s₂ s' hU hstep hV hev
    have hflight : heard = true ↔ InFlight U := by
      rw [(hstep.interrupt hev).1]
      exact listening_iff hU ho.deaf
    refine ⟨hflight, fun g deadline next hheard hwait htold => ?_⟩
    obtain ⟨⟨number, hattached⟩, -⟩ := hflight.mp hheard
    subst hheard
    have hnone (outcome : Outcome) : .done g outcome ∉ s₁.engine.inbox.signals := by
      intro hmem
      obtain ⟨i, target, hi, hsent⟩ := completion_sent hU ho.bygone hattached hmem
      exact absurd (htold i target outcome hsent) (Nat.not_lt_of_le hi)
    exact ⟨exists_end_of_interrupted hU hwait hstep hev hnone hV, acc_next s',
      fun results report hdone => abortReason_of_interrupted hU hwait hstep hev hnone hV hdone⟩

end Whole

section Market

/-- The run of the market waits for the first group, and goes on by the clock when it is interrupted
there. -/
theorem exists_market_waiting : ∃ U next w e,
    Plays ⟨marketRun calm, [], market.engine⟩ U ⟨.ask (.await 0 none) next, [w], e⟩ ∧
      (∀ i a, Event.worker i a ∉ U) ∧ e.inbox = ⟨1, true, []⟩ ∧
      told (Schedule.drive (.ask (.await 0 none) next) [w] (Request.interrupt.apply e).2).1 =
        some ([], [("age", .passed), ("size", .passed), ("weight", .skipped)]) := by
  have hbegun := ((Plays.start ⟨marketRun calm, [], market.engine⟩).step (.attach _ _ _)).step
    (.act .now _ _ _)
  have hready := ((hbegun.step (.groupCount _ _ _)).step (.act .now _ _ _)).step
    (.act (.newToken 0) _ _ _)
  have hspawned := hready.step (.spawn 0 _ _ _ _)
  refine ⟨_, _, _, _, hspawned, ?_, rfl, ?_⟩
  · intro i a hmem
    simp at hmem
  · decide +kernel

/-- Somebody interrupts the run of the market as soon as the first group has begun. The group is run
to its end by then, but the second one is not run any more. -/
theorem interrupts_reach_the_run_in_flight_market :
    ∃ U V s results report,
      Plays ⟨marketRun calm, [], market.engine⟩ (U ++ .outside ⟨.interrupt, true⟩ :: V) s ∧
      InFlight U ∧ s.main = .done (results, .ok report) ∧
      report.abortReason = some interruptReason ∧
      report.results.entries.map (fun entry => (entry.1, entry.2.state)) =
        [("age", .passed), ("size", .passed), ("weight", .skipped)] := by
  obtain ⟨-, -, -, hinterrupt, -⟩ := interrupts_reach_the_run_in_flight market_fresh.lived
  obtain ⟨U, next, w, e, hU, hnobody, hinbox, htold⟩ := exists_market_waiting
  obtain ⟨results, report, hvalue, -, hstates⟩ := exists_told htold
  have hanswer : (Request.interrupt.apply e).1 = true := congrArg Inbox.listening hinbox
  have hstep : Step ⟨.ask (.await 0 none) next, [w], e⟩ (.outside ⟨.interrupt, true⟩)
      ⟨.ask (.await 0 none) next, [w], (Request.interrupt.apply e).2⟩ := by
    have hasked := Step.outside .interrupt (.ask (.await 0 none) next) [w] e
    rw [hanswer] at hasked
    exact hasked
  have hV :=
    Schedule.plays_story (.ask (.await 0 none) next) [w] (Request.interrupt.apply e).2 hvalue
  obtain ⟨hflight, hwait⟩ := hinterrupt calm notOdd none U _ (.outside ⟨.interrupt, true⟩) true
    _ _ _ hU hstep hV rfl
  obtain ⟨-, -, hended⟩ := hwait 0 none next rfl rfl fun i _ _ hsent => absurd hsent (hnobody i _)
  obtain ⟨reason, earlier, later, hbroken, hreason⟩ := hended results report rfl
  have hnothing : e.inbox.signals = [] := congrArg Inbox.signals hinbox
  refine ⟨U, _, _, results, report, (List.append_cons ..).symm ▸ (hU.step hstep).trans hV,
    hflight.mp rfl, rfl, ?_, hstates⟩
  rcases hbroken.reason_cases with rfl | hearlier | ⟨-, hdeadline, -⟩
  · exact hreason
  · rw [hnothing] at hearlier
    cases hearlier
  · cases hdeadline

end Market

end Run

end Conformance
