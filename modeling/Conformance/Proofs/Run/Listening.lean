import Conformance.Proofs.Run.Leftovers

/-!
When signals are taken in. The inbox listens from the moment at which a run attaches until it
detaches, and neither before nor after that, so that an interrupt is accepted in between only. What
is sent at other times is lost. Whatever is left in the inbox when a run has ended makes no
difference to anything that comes later: nobody can tell, and the next run begins with an empty one.
-/
namespace Conformance

variable {κ α : Type}

namespace Event

/-- Somebody interrupts, and is told whether a run has heard it. -/
def Interrupts (heard : Bool) (ev : Event κ) : Prop :=
  ev.action? = some ⟨.request .interrupt, heard⟩

end Event

namespace Engine

variable {e : Engine κ}

/-- The engine with other signals in its inbox. -/
def withSignals (e : Engine κ) (signals : List Signal) : Engine κ :=
  { e with inbox := { e.inbox with signals := signals } }

theorem judge_withSignals (r : CheckRef) (verdict : Verdict) (signals : List Signal) :
    (e.withSignals signals).judge r verdict = (e.judge r verdict).withSignals signals := by
  have hcheck : (e.withSignals signals).check? r = e.check? r := rfl
  rw [judge, judge, hcheck]
  cases e.check? r with
  | none => rfl
  | some c =>
    simp only
    split <;> rfl

theorem register_withSignals (g : Nat) (check : Check κ) (signals : List Signal) :
    (e.withSignals signals).register g check = (e.register g check).withSignals signals := by
  have hgroup : (e.withSignals signals).group? g = e.group? g := rfl
  rw [register, register, hgroup]
  cases e.group? g <;> rfl

theorem listening_send (run : Nat) (signal : Signal) :
    (e.send run signal).inbox.listening = e.inbox.listening := by
  unfold send
  split <;> rfl

end Engine

section Operations

variable {e : Engine κ}

theorem Request.listening_apply (op : Request κ) (e : Engine κ) :
    (op.apply e).2.inbox.listening = e.inbox.listening := by
  cases op with
  | judge r verdict => rw [apply, e.inbox_judge r verdict]
  | register g check => rw [apply, e.inbox_register g check]
  | abort r reason =>
    simp only [apply]
    split
    · rfl
    · split
      · exact Engine.listening_send _ _
      · rfl
  | stop g =>
    simp only [apply]
    split <;> rfl
  | interrupt => exact Engine.listening_send _ _
  | _ => rfl

theorem Action.listening_apply (op : Action κ) (e : Engine κ) :
    (op.apply e).2.inbox.listening = e.inbox.listening := by
  cases op with
  | request op => exact op.listening_apply e
  | send run signal => exact Engine.listening_send run signal
  | _ => rfl

/-- While nobody listens, an operation neither shows nor changes what is in the inbox. -/
theorem Request.apply_withSignals (hdeaf : e.inbox.listening = false) (op : Request κ)
    (signals : List Signal) :
    op.apply (e.withSignals signals) = ((op.apply e).1, (op.apply e).2.withSignals signals) := by
  have hlost (run : Nat) (signal : Signal) : (e.withSignals signals).send run signal =
      (e.send run signal).withSignals signals := by
    rw [Engine.send_of_deaf hdeaf, Engine.send_of_deaf (e := e.withSignals signals) hdeaf]
  cases op with
  | judge r verdict => rw [apply, apply, Engine.judge_withSignals]
  | register g check => rw [apply, apply, Engine.register_withSignals]
  | abort r reason =>
    have hcheck : (e.withSignals signals).check? r = e.check? r := rfl
    simp only [apply, hcheck, hlost]
    cases e.check? r with
    | none => rfl
    | some c =>
      cases hhandle : c.handle with
      | none =>
        simp only [hhandle]
        rfl
      | some handle => simp only [hhandle]
  | stop g =>
    have htoken : ((e.withSignals signals).group? g).bind Group.token =
        (e.group? g).bind Group.token := rfl
    simp only [apply, htoken]
    cases (e.group? g).bind Group.token <;> rfl
  | interrupt => exact Prod.ext rfl (hlost _ _)
  | _ => rfl

theorem Action.apply_withSignals (hdeaf : e.inbox.listening = false) (op : Action κ)
    (signals : List Signal) :
    op.apply (e.withSignals signals) = ((op.apply e).1, (op.apply e).2.withSignals signals) := by
  cases op with
  | request op => exact op.apply_withSignals hdeaf signals
  | send run signal =>
    have hlost : (e.withSignals signals).send run signal = e.withSignals signals :=
      Engine.send_of_deaf (e := e.withSignals signals) hdeaf run signal
    simp only [apply, hlost, Engine.send_of_deaf hdeaf]
  | _ => rfl

end Operations

namespace Scene

variable {s s' : Scene κ α} {T : Story κ} {ev : Event κ}

/-- Whether the inbox listens after the exchange. -/
def hears (listening : Bool) : Prog.Exchange (@Move.Resp κ) → Bool
  | ⟨.attach, _⟩ => true
  | ⟨.detach, _⟩ => false
  | _ => listening

theorem Step.listening (h : Step s ev s') : s'.engine.inbox.listening =
    ev.main?.toList.foldl hears s.engine.inbox.listening := by
  cases h with
  | act op next ws e => exact op.listening_apply e
  | work p e => exact Action.listening_apply _ e
  | outside op p ws e => exact op.listening_apply e
  | _ => rfl

/-- The inbox listens if the run has attached, and has not detached after that. -/
theorem Plays.listening (h : Plays s T s') : s'.engine.inbox.listening =
    T.mainTrail.foldl hears s.engine.inbox.listening := by
  induction h with
  | start => rfl
  | step _ hstep ih => rw [hstep.listening, ih, Story.mainTrail_concat, List.foldl_append]

/-- An interrupt is heard if the inbox listens. It leaves no trace if it does not. -/
theorem Step.interrupt {heard : Bool} (h : Step s ev s') (hev : ev.Interrupts heard) :
    heard = s.engine.inbox.listening ∧
      s'.engine = s.engine.send s.engine.inbox.run .interrupted := by
  rcases h.engine_cases with ⟨a, ha, hanswer, hengine⟩ | ⟨hnone, -⟩
  · cases ha.symm.trans hev
    exact ⟨hanswer, hengine⟩
  · cases hnone.symm.trans hev

/-- As long as the run does nothing and nobody listens, the signals in the inbox make no difference
to a story, and stay there. -/
theorem Plays.withSignals (h : Plays s T s') (hidle : T.mainTrail = [])
    (hdeaf : s.engine.inbox.listening = false) (signals : List Signal) :
    Plays { s with engine := s.engine.withSignals signals } T
      { s' with engine := s'.engine.withSignals signals } := by
  induction h with
  | start => exact .start _
  | @step s₁ s₂ T ev hplays hstep ih =>
    rw [T.mainTrail_concat, List.append_eq_nil_iff] at hidle
    have hstill : s₁.engine.inbox.listening = false := by
      rw [hplays.listening, hidle.1]
      exact hdeaf
    refine (ih hidle.1).step ?_
    cases hstep with
    | work p e hi =>
      have hwork := Step.work p (e.withSignals signals) hi
      rw [Action.apply_withSignals hstill] at hwork
      exact hwork
    | outside op p ws e =>
      have hasked := Step.outside op p ws (e.withSignals signals)
      rw [op.apply_withSignals hstill] at hasked
      exact hasked
    | _ => cases hidle.2

end Scene

namespace Run

open Scene

variable {b : Behaviour κ} {filter : Label.Filter} {limit : Option Nat} {catalog : Catalog}
  {results : Results}

section Trails

theorem foldl_hears {t : MainTrail κ} (h : ∀ a ∈ t, a.1 ≠ .attach) (listening : Bool) :
    t.foldl hears listening = true ↔ listening = true ∧ ⟨.detach, ()⟩ ∉ t := by
  induction t generalizing listening with
  | nil => simp
  | cons a t ih =>
    obtain ⟨hfirst, hrest⟩ := List.forall_mem_cons.mp h
    rw [List.foldl_cons, ih hrest, List.mem_cons, not_or]
    obtain ⟨op, answer⟩ := a
    cases op with
    | attach => exact absurd rfl hfirst
    | detach => simp [hears]
    | _ => simp [hears]

/-- What a run may ask for while it goes from group to group. -/
theorem only_runGroups {P : Move κ → Prop} (hact : ∀ op, P (.act op))
    (hspawn : ∀ g w, P (.spawn g w)) (hawait : ∀ g deadline, P (.await g deadline)) (p : Plan κ)
    (s : Progress) (gs : List Nat) : (runGroups p s gs).Only P := by
  have hcallback {α : Type} (p : Callback κ α) : (ofCallback p).Only P :=
    Prog.only_lift (fun _ => hact _) p
  have hlabel (s : Progress) (g : Nat) (reason : String) : (labelGroup p s g reason).Only P :=
    (hcallback _).bind fun _ => trivial
  have hgroup (s : Progress) (g : Nat) : (runGroup p s g).Only P := by
    obtain ⟨abort, errors, failed, results⟩ := s
    cases abort with
    | some reason => exact (only_move (.act .now) (hact _)).bind fun _ => hlabel _ g reason
    | none =>
      rw [runGroup_eq]
      refine (only_move (.act .now) (hact _)).bind fun time => ?_
      split
      · exact hlabel _ g timeoutReason
      · refine (only_move (.act (.newToken g)) (hact _)).bind fun token => ?_
        refine (only_move (.spawn g _) (hspawn _ _)).bind fun _ => ?_
        refine (only_move (.await g p.deadline) (hawait _ _)).bind fun wait => ?_
        cases wait with
        | done outcome => trivial
        | abort reason =>
          exact (only_move (.act (.setToken token)) (hact _)).bind fun _ => hlabel _ g reason
  induction gs generalizing s with
  | nil => trivial
  | cons g gs ih =>
    refine (hgroup s g).bind fun s₁ => (hcallback _).bind ?_
    rintro ⟨results, missing⟩
    cases missing with
    | some missing => trivial
    | none => exact ih _

/-- A run begins with attaching, which it does only once. -/
theorem attach_of_reaches {t : MainTrail κ} {q : Main κ (Results × Answer)}
    (h : (run b filter limit catalog results).Reaches t q) :
    t = [] ∨ ∃ number u, t = ⟨.attach, number⟩ :: u ∧ ∀ a ∈ u, a.1 ≠ .attach := by
  rcases Prog.reaches_request_bind h with rfl | ⟨number, u, rfl, hrest⟩
  · exact .inl rfl
  · refine .inr ⟨number, u, rfl, Prog.Only.reaches (P := (· ≠ .attach)) ?_ hrest⟩
    refine (only_move (.act .now) nofun).bind fun began => ?_
    refine (only_move .groupCount nofun).bind fun count => ?_
    refine (only_runGroups (fun _ => nofun) (fun _ _ => nofun) (fun _ _ => nofun) _ _ _).bind ?_
    rintro ⟨s, missing⟩
    cases missing with
    | some missing => exact (only_move .detach nofun).bind fun _ => trivial
    | none =>
      refine Prog.Only.bind ?_ fun _ => (only_move .detach nofun).bind fun _ => trivial
      refine (questions_report _ _ _ _).mono ?_
      rintro _ hop rfl
      exact hop

/-- A run ends with detaching, with a report or without one. -/
theorem detach_of_goes {t : MainTrail κ} {x : Results × Answer}
    (h : (run b filter limit catalog results).Goes t (.ok x)) : ⟨.detach, ()⟩ ∈ t := by
  obtain ⟨number, t, rfl, hattached⟩ := Prog.goes_request_bind h
  obtain ⟨began, t, rfl, hbegan⟩ := Prog.goes_request_bind hattached
  obtain ⟨count, t, rfl, hcounted⟩ := Prog.goes_request_bind hbegan
  obtain ⟨t₁, t₂, ⟨s, missing⟩, rfl, -, hrest⟩ := Prog.goes_bind_ok hcounted
  cases missing with
  | some missing =>
    obtain ⟨_, t₃, rfl, -⟩ := Prog.goes_request_bind hrest
    simp
  | none =>
    obtain ⟨t₃, t₄, reported, rfl, -, hlast⟩ := Prog.goes_bind_ok hrest
    obtain ⟨_, t₅, rfl, -⟩ := Prog.goes_request_bind hlast
    simp

end Trails

section Flight

/-- The run has attached, and has not detached yet. -/
def InFlight (U : Story κ) : Prop :=
  (∃ number, Event.main ⟨.attach, number⟩ ∈ U) ∧ Event.main ⟨.detach, ()⟩ ∉ U

variable {ws : List (Worker κ Unit)} {e : Engine κ} {T : Story κ} {s' : Scene κ (Results × Answer)}

theorem listening_iff (h : Plays ⟨run b filter limit catalog results, ws, e⟩ T s')
    (hdeaf : e.inbox.listening = false) : s'.engine.inbox.listening = true ↔ InFlight T := by
  have hmem (a : Prog.Exchange (@Move.Resp κ)) : Event.main a ∈ T ↔ a ∈ T.mainTrail :=
    ⟨Story.mem_mainTrail, Story.mem_of_mainTrail⟩
  simp only [InFlight, hmem]
  rw [h.listening, hdeaf]
  rcases attach_of_reaches h.main_reaches with hnil | ⟨number, u, hattached, honce⟩
  · simp [hnil]
  · have hbegun : u.foldl hears true = true ↔ true = true ∧ ⟨.detach, ()⟩ ∉ u :=
      foldl_hears honce true
    rw [hattached, List.foldl_cons, hears, hbegun]
    simp

/-- A run that has ended does not listen any more. -/
theorem deaf_of_done (h : Plays ⟨run b filter limit catalog results, ws, e⟩ T s')
    (hdeaf : e.inbox.listening = false) {value : Results × Answer} (hdone : s'.main = .done value) :
    s'.engine.inbox.listening = false := by
  have hgoes := h.main_reaches
  rw [hdone] at hgoes
  refine Bool.eq_false_iff.mpr fun hlistening => ?_
  obtain ⟨-, hattached⟩ := (listening_iff h hdeaf).mp hlistening
  exact hattached (Story.mem_of_mainTrail (detach_of_goes hgoes.goes_of_done))

/-- A run that has begun might have gone just so with any other signals left in the inbox. -/
theorem plays_withSignals (h : Plays ⟨run b filter limit catalog results, ws, e⟩ T s')
    (hdeaf : e.inbox.listening = false) (hbegun : T.mainTrail ≠ []) (signals : List Signal) :
    Plays ⟨run b filter limit catalog results, ws, e.withSignals signals⟩ T s' := by
  obtain ⟨number, u, hattached, -⟩ := (attach_of_reaches h.main_reaches).resolve_left hbegun
  obtain ⟨U, V, rfl, hidle, -⟩ := Story.exists_event_of_mainTrail (t := []) hattached
  obtain ⟨s₁, s₂, hU, hstep, hV⟩ := h.exists_step
  have hwaiting := hU.withSignals hidle hdeaf signals
  have hattach : Step { s₁ with engine := s₁.engine.withSignals signals }
      (.main ⟨.attach, number⟩) s₂ := by
    cases hstep with
    | attach next ws e => exact .attach next ws (e.withSignals signals)
  have hfirst := (hwaiting.step hattach).trans hV
  rwa [List.append_assoc] at hfirst

/-- Between the runs nobody listens. -/
theorem Lived.deaf {o : Orchestrator κ} (h : Lived o ws) : o.engine.inbox.listening = false := by
  induction h with
  | new => rfl
  | @group o ws _ name ih =>
    unfold Orchestrator.group
    cases o.findGroup? name <;> exact ih
  | setHooks _ g hooks ih => exact ih
  | addCatalog _ _ ih => exact ih
  | run _ hplays ih => exact deaf_of_done hplays ih rfl
  | between _ hplays ih =>
    have hidle := Prog.reaches_done hplays.main_reaches
    have hstill := hplays.listening
    rw [hidle] at hstill
    exact hstill.trans ih

end Flight

end Run

end Conformance
