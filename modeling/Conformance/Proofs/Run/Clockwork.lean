import Conformance.Proofs.Run.Interleaving

/-!
Runs by the clock, told as stories. Each worker in turn takes all the steps that it can take before
it has to wait, and the run goes on after the last of them. So what holds for every story holds for
the runs by the clock.
-/
namespace Conformance

open Scene

variable {κ α : Type}

section Working

/-- A worker takes its steps up to one for which it has to wait. -/
theorem plays_work (waits : Action κ → Engine κ → Bool) (p : Main κ α) (i : Nat)
    {w : Worker κ Unit} (ws : List (Worker κ Unit)) (e : Engine κ) (h : ws[i]? = some w) :
    Plays ⟨p, ws, e⟩ ((w.trailUntil Action.apply waits e).map (Event.worker i))
      ⟨p, ws.set i (w.execUntil waits Action.apply e).1,
        (w.execUntil waits Action.apply e).2⟩ := by
  have hstays {ws : List (Worker κ Unit)} {w : Worker κ Unit} (h : ws[i]? = some w) :
      ws.set i w = ws := by
    obtain ⟨hi, rfl⟩ := List.getElem?_eq_some_iff.mp h
    exact List.set_getElem_self hi
  induction w generalizing ws e with
  | done value =>
    rw [Prog.execUntil, hstays h]
    exact .start _
  | panic q =>
    rw [Prog.execUntil, hstays h]
    exact .start _
  | ask op next ih =>
    rw [Prog.execUntil, Prog.trailUntil]
    split
    · rw [hstays h]
      exact .start _
    · have hi : i < ws.length := (List.getElem?_eq_some_iff.mp h).1
      have hfirst := Plays.step (.start _) (Step.work p e h)
      have hlater := ih (op.apply e).1 (ws.set i (next (op.apply e).1)) (op.apply e).2
        (List.getElem?_set_self hi)
      rw [List.set_set] at hlater
      exact hfirst.trans hlater

/-- A callback that is called from outside takes its steps one right after the other. -/
theorem plays_outside {β : Type} (p : Main κ α) (ws : List (Worker κ Unit)) (q : Callback κ β)
    (e : Engine κ) :
    Plays ⟨p, ws, e⟩ ((q.trail Request.apply e).map Event.outside)
      ⟨p, ws, (q.exec Request.apply e).2⟩ := by
  induction q generalizing e with
  | done value => exact .start _
  | panic r => exact .start _
  | ask op next ih => exact (Plays.step (.start _) (.outside op p ws e)).trans (ih _ _)

end Working

namespace Schedule

/-- What the workers from the `index`-th on do in their turns. -/
def turns (group : Nat) (deadline : Option Nat) (index : Nat) :
    List (Worker κ Unit) → Engine κ → Story κ
  | [], _ => []
  | w :: rest, e =>
    (w.trailUntil Action.apply (waits group deadline) e).map (Event.worker index) ++
      turns group deadline (index + 1) rest
        (w.execUntil (waits group deadline) Action.apply e).2

/-- The story of a run by the clock. -/
def story : Main κ α → List (Worker κ Unit) → Engine κ → Story κ
  | .done _, _, _ => []
  | .panic _, _, _ => []
  | .ask (.act op) next, ws, e =>
    .main ⟨.act op, (op.apply e).1⟩ :: story (next (op.apply e).1) ws (op.apply e).2
  | .ask .groupCount next, ws, e =>
    .main ⟨.groupCount, e.groups.length⟩ :: story (next e.groups.length) ws e
  | .ask .attach next, ws, e =>
    .main ⟨.attach, e.inbox.run + 1⟩ :: story (next (e.inbox.run + 1)) ws e.attach
  | .ask .detach next, ws, e => .main ⟨.detach, ()⟩ :: story (next ()) ws e.detach
  | .ask (.spawn g w) next, ws, e => .main ⟨.spawn g w, ()⟩ :: story (next ()) (ws ++ [w]) e
  | .ask (.await g deadline) next, ws, e =>
    turns g deadline 0 ws e ++
      match await g deadline (goOn g deadline ws e).2 with
      | (some wait, e') =>
        .main ⟨.await g deadline, wait⟩ :: story (next wait) (goOn g deadline ws e).1 e'
      | (none, _) => []

theorem plays_goOn (g : Nat) (deadline : Option Nat) (p : Main κ α)
    (earlier ws : List (Worker κ Unit)) (e : Engine κ) :
    Plays ⟨p, earlier ++ ws, e⟩ (turns g deadline earlier.length ws e)
      ⟨p, earlier ++ (goOn g deadline ws e).1, (goOn g deadline ws e).2⟩ := by
  induction ws generalizing earlier e with
  | nil => exact .start _
  | cons w rest ih =>
    have hw : (earlier ++ w :: rest)[earlier.length]? = some w := by simp
    have hfirst := plays_work (waits g deadline) p earlier.length (earlier ++ w :: rest) e hw
    have hlater := ih (earlier ++ [(w.execUntil (waits g deadline) Action.apply e).1])
      (w.execUntil (waits g deadline) Action.apply e).2
    rw [List.length_append, List.length_singleton] at hlater
    refine hfirst.trans ?_
    simpa [goOn] using hlater

/-- The wait for a group ends by a signal or by the deadline. -/
theorem step_await {g : Nat} {deadline : Option Nat} (next : Wait → Main κ α)
    (ws : List (Worker κ Unit)) {e e' : Engine κ} {wait : Wait}
    (h : await g deadline e = (some wait, e')) :
    Step ⟨.ask (.await g deadline) next, ws, e⟩ (.main ⟨.await g deadline, wait⟩)
      ⟨next wait, ws, e'⟩ := by
  unfold await at h
  split at h
  · rename_i hsignal
    cases h
    exact .await next ws hsignal
  · cases deadline with
    | none => cases h
    | some d =>
      cases h
      exact .timeOut g d next ws e

/-- A run by the clock that comes to a value is the story that is told of it. -/
theorem plays_story (p : Main κ α) (ws : List (Worker κ Unit)) (e : Engine κ) {value : α}
    (h : (drive p ws e).1 = .ok value) :
    Plays ⟨p, ws, e⟩ (story p ws e) ⟨.done value, (drive p ws e).2.1, (drive p ws e).2.2⟩ := by
  induction p generalizing ws e with
  | done value =>
    cases h
    exact .start _
  | panic q => cases h
  | ask op next ih =>
    cases op with
    | act op => exact (Plays.step (.start _) (.act op next ws e)).trans (ih _ _ _ h)
    | groupCount => exact (Plays.step (.start _) (.groupCount next ws e)).trans (ih _ _ _ h)
    | attach => exact (Plays.step (.start _) (.attach next ws e)).trans (ih _ _ _ h)
    | detach => exact (Plays.step (.start _) (.detach next ws e)).trans (ih _ _ _ h)
    | spawn g w => exact (Plays.step (.start _) (.spawn g w next ws e)).trans (ih _ _ _ h)
    | await g deadline =>
      have hturns := plays_goOn g deadline (.ask (.await g deadline) next) [] ws e
      rw [drive] at h ⊢
      rw [story]
      refine hturns.trans ?_
      generalize (goOn g deadline ws e).1 = vs at h ⊢
      generalize hawait : await g deadline (goOn g deadline ws e).2 = y at h ⊢
      obtain ⟨wait, e₁⟩ := y
      cases wait with
      | none => cases h
      | some wait =>
        exact (Plays.step (.start _) (step_await next vs hawait)).trans (ih _ _ _ h)

end Schedule

end Conformance
