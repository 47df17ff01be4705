import Conformance.Proofs.Group.Headway
import Conformance.Proofs.Run.Interleaving

/-!
Workers that have come some way. The worker of a group asks for the name of the group, runs the
group, and tells of its completion once, at the end, with the outcome that the run has come to.
-/
namespace Conformance.Run

open Conformance.Group

variable {κ : Type} {b : Behaviour κ} {run g : Nat} {filter : Label.Filter} {token : Nat}
  {t : Trail κ} {q : Worker κ Unit}

/-- What the worker of a group has done so far. -/
inductive Progressed (b : Behaviour κ) (run g : Nat) (filter : Label.Filter) (token : Nat) :
    Trail κ → Prop
  | nothing : Progressed b run g filter token []
  | running {u : Trail κ} {q : Worker κ Outcome} (name : String)
      (h : (Group.run b g filter token (some ⟨run, g⟩)).Reaches u q) :
      Progressed b run g filter token (⟨.groupName g, name⟩ :: u)
  | ended {u : Trail κ} {x : Except Panic Outcome} (name : String)
      (h : (Group.run b g filter token (some ⟨run, g⟩)).Goes u x) :
      Progressed b run g filter token
        (⟨.groupName g, name⟩ :: (u ++ [⟨.send run (.done g (outcomeOf name x)), ()⟩]))

theorem progressed_of_reaches (h : (worker b run g filter token).Reaches t q) :
    Progressed b run g filter token t := by
  rcases Prog.reaches_request_bind h with rfl | ⟨name, t, rfl, hnamed⟩
  · exact .nothing
  · rcases Prog.reaches_guarded_bind hnamed with ⟨q', hrun⟩ | ⟨t₁, t₂, x, rfl, hrun, hlast⟩
    · exact .running name hrun
    · rcases Prog.reaches_request_bind hlast with rfl | ⟨_, t₂, rfl, hdone⟩
      · rw [List.append_nil]
        obtain ⟨q', hreached⟩ := hrun.exists_reaches
        exact .running name hreached
      · obtain rfl := Prog.reaches_done hdone
        exact .ended name hrun

/-- What a worker does on its own account concerns its own group, its own stop token and its own
run. -/
theorem own_worker (b : Behaviour κ) (run g : Nat) (filter : Label.Filter) (token : Nat) :
    (worker b run g filter token).Only fun op =>
      IsOwn g token op ∨ ∃ outcome, op = .send run (.done g outcome) := by
  refine (Prog.only_request (.inl trivial)).bind fun name => ?_
  refine ((own_run b g filter token _).mono fun op h => .inl h).guarded.bind fun result => ?_
  exact Prog.only_request (.inr ⟨_, rfl⟩)

/-- The completion of a group is told of when its run has come to an end, and nothing after that. -/
theorem Progressed.trail_of_send (h : Progressed b run g filter token t) {run' : Nat}
    {signal : Signal} (hmem : ⟨.send run' signal, ()⟩ ∈ t) :
    ∃ name u x, signal = .done g (outcomeOf name x) ∧
      t = ⟨.groupName g, name⟩ :: (u ++ [⟨.send run' signal, ()⟩]) ∧
      (Group.run b g filter token (some ⟨run, g⟩)).Goes u x := by
  have hsilent {u : Trail κ} {q : Worker κ Outcome}
      (h : (Group.run b g filter token (some ⟨run, g⟩)).Reaches u q) :
      ⟨.send run' signal, ()⟩ ∉ u := fun hmem => (own_run _ _ _ _ _).reaches h _ hmem
  cases h with
  | nothing => cases hmem
  | running name h =>
    rcases List.mem_cons.mp hmem with hnamed | hmem
    · cases hnamed
    · exact absurd hmem (hsilent h)
  | @ended u x name h =>
    rcases List.mem_cons.mp hmem with hnamed | hmem
    · cases hnamed
    · rcases List.mem_append.mp hmem with hmem | hmem
      · obtain ⟨q, hreached⟩ := h.exists_reaches
        exact absurd hmem (hsilent hreached)
      · cases List.mem_singleton.mp hmem
        exact ⟨name, u, x, rfl, rfl, h⟩

theorem Progressed.goes_of_send (h : Progressed b run g filter token t) {run' : Nat}
    {signal : Signal} (hmem : ⟨.send run' signal, ()⟩ ∈ t) :
    ∃ name u x, signal = .done g (outcomeOf name x) ∧ u <:+: t ∧
      (Group.run b g filter token (some ⟨run, g⟩)).Goes u x := by
  obtain ⟨name, u, x, hsignal, rfl, hgoes⟩ := h.trail_of_send hmem
  exact ⟨name, u, x, hsignal, ⟨[⟨.groupName g, name⟩], [_], rfl⟩, hgoes⟩

/-- Of what a worker does, its first step and its last leave no marks. -/
theorem Progressed.exists_headway (h : Progressed b run g filter token t) :
    ∃ u, u <:+: t ∧ Headway b g filter token u ∧ clearances token t = clearances token u ∧
      (∀ cursor, cursorAfter g cursor t = cursorAfter g cursor u) ∧
      ∀ a ∈ t, a ∈ u ∨ (∃ g', a.1 = .groupName g') ∨ ∃ run' signal, a.1 = .send run' signal := by
  cases h with
  | nothing => exact ⟨[], List.infix_refl [], .nothing, rfl, fun _ => rfl, List.forall_mem_nil _⟩
  | @running u q name h =>
    refine ⟨u, (List.suffix_cons _ u).isInfix, headway_of_reaches h, ?_, fun _ => rfl, ?_⟩
    · simp [clearances_cons, lets]
    · exact List.forall_mem_cons.mpr ⟨.inr (.inl ⟨g, rfl⟩), fun a ha => .inl ha⟩
  | @ended u x name h =>
    obtain ⟨q, hreached⟩ := h.exists_reaches
    refine ⟨u, ⟨[⟨.groupName g, name⟩], [_], rfl⟩, headway_of_reaches hreached, ?_, ?_, ?_⟩
    · simp [clearances, lets]
    · intro cursor
      rw [cursorAfter_cons, cursorAfter_append]
      rfl
    · refine List.forall_mem_cons.mpr ⟨.inr (.inl ⟨g, rfl⟩), ?_⟩
      refine List.forall_mem_append.mpr ⟨fun a ha => .inl ha, ?_⟩
      exact List.forall_mem_singleton.mpr (.inr (.inr ⟨run, _, rfl⟩))

theorem Progressed.clearances_le (h : Progressed b run g filter token t) (cursor : Option Nat) :
    clearances token t ≤ (cursorAfter g cursor t).elim 0 (· + 1) := by
  obtain ⟨u, -, hu, hcount, hcursor, -⟩ := h.exists_headway
  rw [hcount, hcursor]
  exact hu.clearances_le cursor

theorem Progressed.check (h : Progressed b run g filter token t)
    {a : Prog.Exchange (@Action.Resp κ)} (ha : a ∈ t) {r : CheckRef} (hr : a.1.check? = some r) :
    ∃ checks i m, ⟨.request (.checks g), checks⟩ ∈ t ∧
      (selected filter (members g checks))[i]? = some m ∧ m.1 = r ∧ i < clearances token t := by
  obtain ⟨u, hinfix, hu, hcount, -, hmem⟩ := h.exists_headway
  rcases hmem a ha with ha | ⟨g', hnamed⟩ | ⟨run', signal, hsent⟩
  · obtain ⟨checks, i, m, hread, hm, hsame, hi⟩ := hu.check ha hr
    exact ⟨checks, i, m, hinfix.subset hread, hm, hsame, hcount ▸ hi⟩
  · rw [hnamed] at hr
    cases hr
  · rw [hsent] at hr
    cases hr

theorem Progressed.ran (h : Progressed b run g filter token t) {place : Nat}
    (hplace : ⟨.setCursor g (some place), ()⟩ ∈ t) :
    ∃ checks, ⟨.request (.checks g), checks⟩ ∈ t ∧
      ∀ {i : Nat} {m : Member κ}, i < place →
        (selected filter (members g checks))[i]? = some m →
        ∃ u s later, u <:+: t ∧ s.behaviour = b ∧ (iteration s m later).Goes u (.ok []) := by
  obtain ⟨u, hinfix, hu, -, -, hmem⟩ := h.exists_headway
  rcases hmem _ hplace with hplace | ⟨g', hnamed⟩ | ⟨run', signal, hsent⟩
  · obtain ⟨checks, hread, hran⟩ := hu.ran hplace
    refine ⟨checks, hinfix.subset hread, ?_⟩
    intro i m hi hm
    obtain ⟨v, s, later, hv, hs, hgoes⟩ := hran hi hm
    exact ⟨v, s, later, hv.trans hinfix, hs, hgoes⟩
  · cases hnamed
  · cases hsent

theorem progressed_of_plays {α : Type} {s s' : Scene κ α} {T : Story κ} (h : s.Plays T s') {i : Nat}
    (hi : (s.workers ++ T.spawned)[i]? = some (worker b run g filter token)) :
    Progressed b run g filter token (T.workerTrail i) := by
  have hfollows := h.follows i
  rw [hi] at hfollows
  generalize s'.workers[i]? = q? at hfollows
  generalize T.workerTrail i = t at hfollows
  cases hfollows with
  | there h => exact progressed_of_reaches h

end Conformance.Run
