import Conformance.Proofs.Run.Inbox

/-!
The thread that runs all groups as it acts on the engine by the clock: composed programs, callbacks,
and the turn of a group as a composed program. Whatever it does, no check is taken away.
-/
namespace Conformance.Run

open Schedule

variable {κ α β : Type}

section Drive

theorem drive_bind (p : Main κ α) (f : α → Main κ β) (ws : List (Worker κ Unit)) (e : Engine κ) :
    drive (p.bind f) ws e =
      match drive p ws e with
      | (.ok value, ws, e) => drive (f value) ws e
      | (.error q, ws, e) => (.error q, ws, e) := by
  induction p generalizing ws e with
  | done value => rfl
  | panic q => rfl
  | ask op next ih =>
    cases op with
    | await g deadline =>
      rw [Prog.ask_bind, drive, drive]
      split
      · exact ih _ _ _
      · rfl
    | _ => exact ih _ _ _

/-- A composed program comes to a value through a value of its first part. -/
theorem drive_bind_ok {p : Main κ α} {f : α → Main κ β} {ws ws' : List (Worker κ Unit)}
    {e e' : Engine κ} {value : β} (h : drive (p.bind f) ws e = (.ok value, ws', e')) :
    ∃ a vs u, drive p ws e = (.ok a, vs, u) ∧ drive (f a) vs u = (.ok value, ws', e') := by
  rw [drive_bind] at h
  generalize drive p ws e = y at h ⊢
  obtain ⟨x, vs, u⟩ := y
  cases x with
  | ok a => exact ⟨a, vs, u, rfl, h⟩
  | error q => cases h

theorem drive_ofCallback (p : Callback κ α) (ws : List (Worker κ Unit)) (e : Engine κ) :
    drive (ofCallback p) ws e = ((p.exec Request.apply e).1, ws, (p.exec Request.apply e).2) := by
  induction p generalizing e with
  | done value => rfl
  | panic q => rfl
  | ask op next ih => exact ih _ _

end Drive

section Growth

open Engine

theorem grows_goOn (g : Nat) (deadline : Option Nat) (ws : List (Worker κ Unit)) (e : Engine κ) :
    Grows e (goOn g deadline ws e).2 := by
  induction ws generalizing e with
  | nil => exact grows_isEffect.refl e
  | cons w rest ih =>
    have hfirst : Grows e (w.execUntil (waits g deadline) Action.apply e).2 :=
      Prog.effect_execUntil grows_isEffect Action.grows_apply w e
    exact grows_isEffect.trans hfirst (ih _)

theorem grows_await (g : Nat) (deadline : Option Nat) (e : Engine κ) :
    Grows e (await g deadline e).2 := by
  intro r c h
  unfold await
  split
  · exact h
  · cases deadline <;> exact h

theorem grows_main (p : Main κ α) (ws : List (Worker κ Unit)) (e : Engine κ) :
    Grows e (drive p ws e).2.2 := by
  induction p generalizing ws e with
  | done value => exact grows_isEffect.refl e
  | panic q => exact grows_isEffect.refl e
  | ask op next ih =>
    cases op with
    | act op => exact grows_isEffect.trans (op.grows_apply e) (ih _ _ _)
    | attach => exact ih _ ws e.attach
    | detach => exact ih _ ws e.detach
    | await g deadline =>
      have hwaited := grows_isEffect.trans (grows_goOn g deadline ws e) (grows_await g deadline _)
      rw [drive]
      split
      · rename_i hawait
        rw [hawait] at hwaited
        exact grows_isEffect.trans hwaited (ih _ _ _)
      · rename_i hawait
        rw [hawait] at hwaited
        exact hwaited
    | _ => exact ih _ _ _

/-- No run takes a check away, even if it is aborted or panics. -/
theorem grows_drive {p : Main κ α} {ws ws' : List (Worker κ Unit)} {x : Except Panic α}
    {e e' : Engine κ} (h : drive p ws e = (x, ws', e')) : e.Grows e' := by
  have hgrows := grows_main p ws e
  rwa [h] at hgrows

end Growth

section Groups

/-- Workers that have nothing left to do. -/
def AllFinished (ws : List (Worker κ Unit)) : Prop := ∀ w ∈ ws, w = .done ()

/-- The engine on which a group is run, with a fresh stop token for it. -/
def readied (g : Nat) (e : Engine κ) : Engine κ :=
  ((Action.newToken g).apply ((Action.now : Action κ).apply e).2).2

theorem tokenSet_readied (g : Nat) (e : Engine κ) :
    (readied g e).tokenSet e.tokens.length = false := by
  have htokens : (readied g e).tokens = e.tokens ++ [false] := rfl
  rw [Engine.tokenSet, htokens, List.getD_eq_getElem?_getD, List.getElem?_concat_length]
  rfl

/-- What a run makes of the end of its wait for a group. -/
def closeGroup (p : Plan κ) (s : Progress) (g token : Nat) : Wait → Main κ Progress
  | .done outcome =>
    .done { s with errors := s.errors ++ outcome.errors, failed := s.failed + outcome.failed }
  | .abort reason => (act (.setToken token)).bind fun _ => labelGroup p s g reason

theorem runGroup_eq (p : Plan κ) (errors : List GroupError) (failed : Nat) (results : Results)
    (g : Nat) :
    runGroup p ⟨none, errors, failed, results⟩ g = (act .now).bind fun time =>
      if isPast p.deadline time then labelGroup p ⟨none, errors, failed, results⟩ g timeoutReason
      else (act (.newToken g)).bind fun token =>
        (move (.spawn g (worker p.behaviour p.run g p.filter token))).bind fun _ =>
          (move (.await g p.deadline)).bind
            (closeGroup p ⟨none, errors, failed, results⟩ g token) := by
  simp only [runGroup, Prog.bind_eq]
  congr 1
  funext time
  congr 1
  congr 1
  funext token
  congr 1
  funext _
  congr 1
  funext wait
  cases wait <;> rfl

end Groups

end Conformance.Run
