import Conformance.Proofs.Run.Inbox
import Conformance.Proofs.Run.Interleaving

/-!
Waiting for a group. The first signal in the queue that concerns the group, or an interrupt, decides
how the wait ends, and the signals before it are dropped. Signals of other groups decide nothing,
however many there are and wherever they stand. Signals come in behind those that are queued
already, so that nothing that comes in later undoes a decision.
-/
namespace Conformance

variable {κ α : Type}

namespace Signal

variable {g : Nat} {signal : Signal}

/-- A signal of another group. -/
inductive IsForeign (g : Nat) : Signal → Prop
  | done {g' : Nat} (outcome : Outcome) (h : g' ≠ g) : IsForeign g (.done g' outcome)
  | abort {g' : Nat} (reason : String) (h : g' ≠ g) : IsForeign g (.abort g' reason)

/-- What a signal decides for the one who waits for the group. -/
inductive Decides (g : Nat) : Signal → Wait → Prop
  | done (outcome : Outcome) : Decides g (.done g outcome) (.done outcome)
  | abort (reason : String) : Decides g (.abort g reason) (.abort reason)
  | interrupted : Decides g .interrupted (.abort interruptReason)

theorem ends_eq_some_iff {wait : Wait} : signal.ends g = some wait ↔ signal.Decides g wait := by
  constructor
  · intro h
    cases signal with
    | done g' outcome =>
      obtain ⟨rfl, hwait⟩ := Option.ite_none_right_eq_some.mp h
      cases hwait
      exact .done outcome
    | abort g' reason =>
      obtain ⟨rfl, hwait⟩ := Option.ite_none_right_eq_some.mp h
      cases hwait
      exact .abort reason
    | interrupted =>
      cases h
      exact .interrupted
  · intro h
    cases h with
    | done outcome => exact if_pos rfl
    | abort reason => exact if_pos rfl
    | interrupted => rfl

theorem IsForeign.ends (h : signal.IsForeign g) : signal.ends g = none := by
  cases h with
  | done outcome h => exact if_neg h
  | abort reason h => exact if_neg h

theorem ends_eq_none_iff : signal.ends g = none ↔ signal.IsForeign g := by
  refine ⟨fun h => ?_, IsForeign.ends⟩
  cases signal with
  | done g' outcome =>
    refine .done outcome ?_
    rintro rfl
    simp [Signal.ends] at h
  | abort g' reason =>
    refine .abort reason ?_
    rintro rfl
    simp [Signal.ends] at h
  | interrupted => cases h

end Signal

section Queue

variable {g : Nat} {signals later : List Signal} {wait : Wait}

theorem awaitGroup_of_decides {signal : Signal} (h : signal.Decides g wait) (later : List Signal) :
    awaitGroup g (signal :: later) = some (wait, later) := by
  rw [awaitGroup, Signal.ends_eq_some_iff.mpr h]

theorem awaitGroup_of_isForeign {signal : Signal} (h : signal.IsForeign g)
    (later : List Signal) : awaitGroup g (signal :: later) = awaitGroup g later := by
  rw [awaitGroup, h.ends]

/-- Signals of other groups are passed over. -/
theorem awaitGroup_append_of_isForeign {earlier : List Signal}
    (h : ∀ s ∈ earlier, s.IsForeign g) (signals : List Signal) :
    awaitGroup g (earlier ++ signals) = awaitGroup g signals := by
  induction earlier with
  | nil => rfl
  | cons signal earlier ih =>
    obtain ⟨hsignal, hearlier⟩ := List.forall_mem_cons.mp h
    rw [List.cons_append, awaitGroup_of_isForeign hsignal, ih hearlier]

theorem awaitGroup_eq_some_iff : awaitGroup g signals = some (wait, later) ↔
    ∃ earlier signal, signals = earlier ++ signal :: later ∧
      (∀ s ∈ earlier, s.IsForeign g) ∧ signal.Decides g wait := by
  constructor
  · intro h
    induction signals with
    | nil => cases h
    | cons signal rest ih =>
      cases hends : signal.ends g with
      | some decided =>
        have hdecides := Signal.ends_eq_some_iff.mp hends
        rw [awaitGroup_of_decides hdecides] at h
        cases h
        exact ⟨[], signal, rfl, List.forall_mem_nil _, hdecides⟩
      | none =>
        have hforeign := Signal.ends_eq_none_iff.mp hends
        rw [awaitGroup_of_isForeign hforeign] at h
        obtain ⟨earlier, last, rfl, hearlier, hdecides⟩ := ih h
        exact ⟨signal :: earlier, last, rfl, List.forall_mem_cons.mpr ⟨hforeign, hearlier⟩,
          hdecides⟩
  · rintro ⟨earlier, signal, rfl, hforeign, hdecides⟩
    rw [awaitGroup_append_of_isForeign hforeign, awaitGroup_of_decides hdecides]

theorem awaitGroup_eq_none_iff :
    awaitGroup g signals = none ↔ ∀ s ∈ signals, s.IsForeign g := by
  constructor
  · intro h
    induction signals with
    | nil => exact List.forall_mem_nil _
    | cons signal rest ih =>
      cases hends : signal.ends g with
      | some decided =>
        rw [awaitGroup_of_decides (Signal.ends_eq_some_iff.mp hends)] at h
        cases h
      | none =>
        have hforeign := Signal.ends_eq_none_iff.mp hends
        rw [awaitGroup_of_isForeign hforeign] at h
        exact List.forall_mem_cons.mpr ⟨hforeign, ih h⟩
  · intro h
    rw [← List.append_nil signals, awaitGroup_append_of_isForeign h]
    rfl

/-- A signal of another group makes no difference, wherever it stands in the queue. -/
theorem awaitGroup_insert (before after : List Signal) {stray : Signal} (h : stray.IsForeign g) :
    (awaitGroup g (before ++ stray :: after)).map Prod.fst =
      (awaitGroup g (before ++ after)).map Prod.fst := by
  induction before with
  | nil => rw [List.nil_append, List.nil_append, awaitGroup_of_isForeign h]
  | cons signal before ih =>
    rw [List.cons_append, List.cons_append]
    cases hends : signal.ends g with
    | some wait =>
      have hdecides := Signal.ends_eq_some_iff.mp hends
      rw [awaitGroup_of_decides hdecides, awaitGroup_of_decides hdecides]
      rfl
    | none =>
      have hforeign := Signal.ends_eq_none_iff.mp hends
      rw [awaitGroup_of_isForeign hforeign, awaitGroup_of_isForeign hforeign, ih]

end Queue

section Clock

open Schedule

/-- How a wait ends by the clock: with the first signal that concerns the group, which is taken out
of the queue together with those before it, or else with the deadline. -/
inductive Awaited (g : Nat) (deadline : Option Nat) (e : Engine κ) : Wait → Engine κ → Prop
  | decided {earlier later : List Signal} {signal : Signal} {wait : Wait}
      (hsignals : e.inbox.signals = earlier ++ signal :: later)
      (hforeign : ∀ s ∈ earlier, s.IsForeign g) (hdecides : signal.Decides g wait) :
      Awaited g deadline e wait { e with inbox := { e.inbox with signals := later } }
  | timedOut {d : Nat} (hdeadline : deadline = some d)
      (hforeign : ∀ s ∈ e.inbox.signals, s.IsForeign g) :
      Awaited g deadline e (.abort timeoutReason) { e with clock := max e.clock d }

variable {g : Nat} {deadline : Option Nat} {e e' : Engine κ}

theorem await_eq_some_iff {wait : Wait} :
    await g deadline e = (some wait, e') ↔ Awaited g deadline e wait e' := by
  constructor
  · intro h
    cases hqueue : awaitGroup g e.inbox.signals with
    | some found =>
      obtain ⟨decided, later⟩ := found
      simp only [await, hqueue] at h
      cases h
      obtain ⟨earlier, signal, hsignals, hforeign, hdecides⟩ := awaitGroup_eq_some_iff.mp hqueue
      exact .decided hsignals hforeign hdecides
    | none =>
      have hforeign := awaitGroup_eq_none_iff.mp hqueue
      cases deadline with
      | none =>
        simp only [await, hqueue] at h
        cases h
      | some d =>
        simp only [await, hqueue] at h
        cases h
        exact .timedOut rfl hforeign
  · intro h
    cases h with
    | decided hsignals hforeign hdecides =>
      simp only [await, awaitGroup_eq_some_iff.mpr ⟨_, _, hsignals, hforeign, hdecides⟩]
    | timedOut hdeadline hforeign =>
      simp only [await, awaitGroup_eq_none_iff.mpr hforeign, hdeadline]

/-- Without a deadline, a wait that no queued signal ends goes on. -/
theorem await_eq_none_iff : await g deadline e = (none, e') ↔
    e' = e ∧ deadline = none ∧ ∀ s ∈ e.inbox.signals, s.IsForeign g := by
  constructor
  · intro h
    cases hqueue : awaitGroup g e.inbox.signals with
    | some found =>
      simp only [await, hqueue] at h
      cases h
    | none =>
      cases deadline with
      | none =>
        simp only [await, hqueue] at h
        cases h
        exact ⟨rfl, rfl, awaitGroup_eq_none_iff.mp hqueue⟩
      | some d =>
        simp only [await, hqueue] at h
        cases h
  · rintro ⟨rfl, rfl, hforeign⟩
    simp only [await, awaitGroup_eq_none_iff.mpr hforeign]

end Clock

section Arrivals

open Scene

theorem Engine.isPrefix_signals_send (e : Engine κ) (run : Nat) (signal : Signal) :
    e.inbox.signals <+: (e.send run signal).inbox.signals := by
  unfold send
  split
  · exact List.prefix_append _ _
  · exact List.prefix_rfl

theorem Request.isPrefix_signals_apply (op : Request κ) (e : Engine κ) :
    e.inbox.signals <+: (op.apply e).2.inbox.signals := by
  cases op with
  | judge r verdict => exact (e.inbox_judge r verdict) ▸ List.prefix_rfl
  | register g check => exact (e.inbox_register g check) ▸ List.prefix_rfl
  | abort r reason =>
    simp only [apply]
    split
    · exact List.prefix_rfl
    · split
      · exact e.isPrefix_signals_send _ _
      · exact List.prefix_rfl
  | stop g =>
    simp only [apply]
    split <;> exact List.prefix_rfl
  | interrupt => exact e.isPrefix_signals_send _ _
  | _ => exact List.prefix_rfl

/-- A signal comes in behind those that are queued already. -/
theorem Action.isPrefix_signals_apply (op : Action κ) (e : Engine κ) :
    e.inbox.signals <+: (op.apply e).2.inbox.signals := by
  cases op with
  | request op => exact op.isPrefix_signals_apply e
  | send run signal => exact e.isPrefix_signals_send run signal
  | _ => exact List.prefix_rfl

/-- While the others are at work, the run goes on waiting and the queue grows at its end. -/
theorem Scene.Plays.waiting {s s' : Scene κ α} {T : Story κ} (h : Plays s T s')
    (hothers : T.mainTrail = []) :
    s'.main = s.main ∧ s.engine.inbox.signals <+: s'.engine.inbox.signals := by
  induction h with
  | start => exact ⟨rfl, List.prefix_rfl⟩
  | @step s₁ s₂ T ev _ hstep ih =>
    rw [T.mainTrail_concat, List.append_eq_nil_iff] at hothers
    obtain ⟨hmain, hgrows⟩ := ih hothers.1
    cases hstep with
    | work p e h => exact ⟨hmain, hgrows.trans (Action.isPrefix_signals_apply _ e)⟩
    | outside op p ws e => exact ⟨hmain, hgrows.trans (op.isPrefix_signals_apply e)⟩
    | _ => cases hothers.2

end Arrivals

section Whole

open Scene

/-- How a wait ends, by the clock and in every interleaving. By the clock it ends with the first
signal that concerns the group, or else with the deadline, and goes on where there is neither. A
signal of another group makes no difference. Among others, the deadline may pass at any moment, and
the first signal to concern the group stays the first whatever comes in behind it. -/
theorem wait_ends_with_first_signal (g : Nat) (deadline : Option Nat) :
    (∀ (e : Engine κ) wait e',
      Schedule.await g deadline e = (some wait, e') ↔ Awaited g deadline e wait e') ∧
    (∀ e e' : Engine κ, Schedule.await g deadline e = (none, e') ↔
      e' = e ∧ deadline = none ∧ ∀ s ∈ e.inbox.signals, s.IsForeign g) ∧
    (∀ before after stray, stray.IsForeign g →
      (awaitGroup g (before ++ stray :: after)).map Prod.fst =
        (awaitGroup g (before ++ after)).map Prod.fst) ∧
    (∀ (next : Wait → Main κ α) ws e wait s',
      Step ⟨.ask (.await g deadline) next, ws, e⟩ (.main ⟨.await g deadline, wait⟩) s' ↔
        ∃ e', s' = ⟨next wait, ws, e'⟩ ∧ (Awaited g deadline e wait e' ∨
          ∃ d, deadline = some d ∧ wait = .abort timeoutReason ∧
            e' = { e with clock := max e.clock d })) ∧
    ∀ (s s' : Scene κ α) T earlier signal later, Plays s T s' → T.mainTrail = [] →
      s.engine.inbox.signals = earlier ++ signal :: later →
      s'.main = s.main ∧ ∃ arrived,
        s'.engine.inbox.signals = earlier ++ signal :: (later ++ arrived) := by
  refine ⟨fun _ _ _ => await_eq_some_iff, fun _ _ => await_eq_none_iff,
    fun before after _ h => awaitGroup_insert before after h, fun next ws e wait s' => ⟨?_, ?_⟩, ?_⟩
  · intro hstep
    cases hstep with
    | await _ _ h =>
      obtain ⟨earlier, signal, hsignals, hforeign, hdecides⟩ := awaitGroup_eq_some_iff.mp h
      exact ⟨_, rfl, .inl (.decided hsignals hforeign hdecides)⟩
    | timeOut g d => exact ⟨_, rfl, .inr ⟨d, rfl, rfl, rfl⟩⟩
  · rintro ⟨e', rfl, hawaited | ⟨d, rfl, rfl, rfl⟩⟩
    · cases hawaited with
      | decided hsignals hforeign hdecides =>
        exact .await next ws (awaitGroup_eq_some_iff.mpr ⟨_, _, hsignals, hforeign, hdecides⟩)
      | timedOut hdeadline =>
        subst hdeadline
        exact .timeOut g _ next ws e
    · exact .timeOut g d next ws e
  · intro s s' T earlier signal later hplays hothers hsignals
    obtain ⟨hmain, arrived, harrived⟩ := hplays.waiting hothers
    refine ⟨hmain, arrived, ?_⟩
    rw [← harrived, hsignals, List.append_assoc, List.cons_append]

theorem wait_ends_with_first_signal_late :
    let stale : Signal := .done 0 ⟨[], 3⟩
    let e : Engine Unit := { (Engine.start 0 : Engine Unit) with
      inbox := ⟨1, true, [stale, .abort 1 "gone"]⟩ }
    let left : Engine Unit := { e with inbox := ⟨1, true, []⟩ }
    let s : Scene Unit Wait := ⟨.ask (.await 1 none) .done, [], e⟩
    stale.IsForeign 1 ∧ Schedule.await 1 none e = (some (.abort "gone"), left) ∧
      (awaitGroup 1 [stale, .interrupted]).map Prod.fst = some (.abort interruptReason) ∧
      ∃ s', Scene.Plays s [.outside ⟨.interrupt, true⟩] s' ∧
        ∃ arrived, s'.engine.inbox.signals = [stale] ++ .abort 1 "gone" :: ([] ++ arrived) := by
  intro stale e left s
  obtain ⟨hclock, -, hstray, -, hstays⟩ :=
    wait_ends_with_first_signal (κ := Unit) (α := Wait) 1 none
  have hstale : stale.IsForeign 1 := .done _ (by decide)
  have hplays : Scene.Plays s [.outside ⟨.interrupt, true⟩]
      ⟨s.main, s.workers, (Request.interrupt.apply e).2⟩ :=
    .step (.start s) (.outside .interrupt s.main s.workers e)
  have hsignals : e.inbox.signals = [stale] ++ .abort 1 "gone" :: [] := rfl
  refine ⟨hstale, (hclock e _ left).mpr ?_, hstray [] [.interrupted] stale hstale, _, hplays, ?_⟩
  · exact .decided hsignals (List.forall_mem_singleton.mpr hstale) (.abort "gone")
  · exact (hstays s _ _ [stale] (.abort 1 "gone") [] hplays rfl rfl).2

end Whole

end Conformance
