import Conformance.Proofs.Group.Order
import Conformance.Run.Schedule

/-!
The signals that are on their way to a run. Callbacks send requests to abort and interrupts only, so
that the completion of a group is known from the one signal that its worker sends at its end.
-/
namespace Conformance

variable {κ : Type}

def Signal.IsDone : Signal → Prop
  | .done .. => True
  | _ => False

/-- No signal tells of the completion of a group. -/
def Engine.NoneDone (e : Engine κ) : Prop := ∀ signal ∈ e.inbox.signals, ¬signal.IsDone

theorem Engine.mem_signals_send {e : Engine κ} {run : Nat} {sent signal : Signal}
    (h : signal ∈ (e.send run sent).inbox.signals) :
    signal ∈ e.inbox.signals ∨ signal = sent := by
  unfold Engine.send at h
  split at h
  · exact (List.mem_append.mp h).imp_right List.mem_singleton.mp
  · exact .inl h

theorem Engine.inbox_judge (e : Engine κ) (r : CheckRef) (verdict : Verdict) :
    (e.judge r verdict).inbox = e.inbox := by
  obtain ⟨groups, clock, hjudge⟩ := e.exists_judge_eq r verdict
  rw [hjudge]

theorem Engine.inbox_register (e : Engine κ) (g : Nat) (check : Check κ) :
    (e.register g check).inbox = e.inbox := by
  unfold register
  cases e.group? g <;> rfl

/-- No request tells of the completion of a group. -/
theorem Request.mem_signals_of_apply (op : Request κ) {e : Engine κ} {signal : Signal}
    (hdone : signal.IsDone) (h : signal ∈ (op.apply e).2.inbox.signals) :
    signal ∈ e.inbox.signals := by
  cases op with
  | judge r verdict => rwa [apply, e.inbox_judge r verdict] at h
  | register g check => rwa [apply, e.inbox_register g check] at h
  | abort r reason =>
    simp only [apply] at h
    split at h
    · exact h
    · split at h
      · refine (Engine.mem_signals_send h).resolve_right ?_
        rintro rfl
        exact hdone
      · exact h
  | stop g =>
    simp only [apply] at h
    split at h <;> exact h
  | interrupt =>
    refine (Engine.mem_signals_send h).resolve_right ?_
    rintro rfl
    exact hdone
  | _ => exact h

theorem Request.noneDone_apply (op : Request κ) {e : Engine κ} (h : e.NoneDone) :
    (op.apply e).2.NoneDone :=
  fun signal hmem hdone => h signal (op.mem_signals_of_apply hdone hmem) hdone

/-- A completion is in the inbox because it was sent. -/
theorem Action.mem_signals_of_apply {op : Action κ} {e : Engine κ} {signal : Signal}
    (hdone : signal.IsDone) (h : signal ∈ (op.apply e).2.inbox.signals) :
    signal ∈ e.inbox.signals ∨ ∃ run, op = .send run signal := by
  cases op with
  | request op => exact .inl (op.mem_signals_of_apply hdone h)
  | send run sent =>
    refine (Engine.mem_signals_send h).imp_right ?_
    rintro rfl
    exact ⟨run, rfl⟩
  | _ => exact .inl h

/-- An operation that sends nothing on account of the worker itself. -/
def Action.IsSilent : Action κ → Prop
  | .send .. => False
  | _ => True

end Conformance
