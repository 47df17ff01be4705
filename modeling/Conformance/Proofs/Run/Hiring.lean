import Conformance.Proofs.Run.Leftovers
import Mathlib.Tactic.Choose

/-!
The workers of a run that is not aborted. They are spawned in the order of the groups, one for each
group, so that a worker is known by its place. Each of them is waited for up to its completion, and
has run its whole group by then.
-/
namespace Conformance.Run

open Conformance.Group Scene

variable {κ : Type}

section Turns

variable {p : Plan κ} {gs : List Nat} {s s' : Progress} {t : MainTrail κ}

/-- The worker that is spawned. -/
def hired? : Prog.Exchange (@Move.Resp κ) → Option (Worker κ Unit)
  | ⟨.spawn _ w, _⟩ => some w
  | _ => none

theorem spawned_eq (T : Story κ) : T.spawned = T.mainTrail.filterMap hired? := by
  rw [Story.spawned, Story.mainTrail, List.filterMap_filterMap]
  refine List.filterMap_congr fun ev _ => ?_
  cases ev with
  | main a =>
    obtain ⟨op, answer⟩ := a
    cases op <;> rfl
  | worker => rfl
  | outside => rfl

theorem hired_of_started (h : started t = []) : t.filterMap hired? = [] := by
  refine List.filterMap_eq_nil_iff.mpr fun a ha => ?_
  have hnobody := List.filterMap_eq_nil_iff.mp h a ha
  obtain ⟨op, answer⟩ := a
  cases op with
  | spawn => cases hnobody
  | _ => rfl

/-- A run that is not aborted spawns the workers of its groups one after the other, each with a stop
token that it has just got, and waits for each of them up to its completion. -/
theorem hired_of_goes (h : (runGroups p s gs).Goes t (.ok (s', none))) (habort : s'.abort = none) :
    (t.filterMap hired?).length = gs.length ∧ ∀ (i g : Nat), gs[i]? = some g → ∃ token,
      (t.filterMap hired?)[i]? = some (worker p.behaviour p.run g p.filter token) ∧
      ⟨.act (.newToken g), token⟩ ∈ t ∧ ∃ outcome, ⟨.await g p.deadline, .done outcome⟩ ∈ t := by
  induction gs generalizing s t with
  | nil =>
    obtain ⟨rfl, -⟩ := Prog.goes_done h
    exact ⟨rfl, nofun⟩
  | cons g gs ih =>
    obtain ⟨t₁, t₂, t₃, s₁, results, first, rfl, hvisit, hrecord, hend⟩ := goes_runGroups_cons h
    rcases hend with ⟨hmissing, hnone, -, -⟩ | ⟨-, hlater⟩
    · exact absurd hnone.symm hmissing
    have hgoing : s₁.abort = none := (within_of_runGroups hlater).abort habort
    obtain ⟨hlength, hworkers⟩ := ih hlater
    obtain ⟨hquiet, -, -⟩ := quiet_recordGroup hrecord
    cases hvisit with
    | left hreason => rw [hreason] at hgoing; cases hgoing
    | expired => cases hgoing
    | interrupted => cases hgoing
    | @completed time token outcome hnone =>
      rw [List.filterMap_append, List.filterMap_append, hired_of_started hquiet, List.nil_append]
      refine ⟨congrArg (· + 1) hlength, fun i g' hi => ?_⟩
      cases i with
      | zero =>
        cases hi
        exact ⟨token, rfl, by simp, outcome, by simp⟩
      | succ i =>
        obtain ⟨token', hworker, htoken, outcome', hawaited⟩ := hworkers i g' hi
        have hlast := (infix_last [⟨.act .now, time⟩, ⟨.act (.newToken g), token⟩,
          ⟨.spawn g (worker p.behaviour p.run g p.filter token), ()⟩,
          ⟨.await g p.deadline, .done outcome⟩] t₂ t₃).subset
        exact ⟨token', hworker, hlast htoken, outcome', hlast hawaited⟩

end Turns

section Whole

variable {b : Behaviour κ} {filter : Label.Filter} {limit : Option Nat} {catalog : Catalog}
  {results results' : Results} {report : RunReport} {T : Story κ}
  {s' : Scene κ (Results × Answer)} {ws : List (Worker κ Unit)} {e : Engine κ}

/-- In a run that is not aborted the workers are spawned in the order of the groups, and one after
the other is waited for up to its completion. -/
theorem spawned_of_run (h : Plays ⟨run b filter limit catalog results, ws, e⟩ T s')
    (hdone : s'.main = .done (results', .ok report)) (hcalm : report.abortReason = none) :
    T.spawned.length = e.groups.length ∧ ∃ number t, ∃ token : Nat → Nat,
      T.mainTrail = ⟨.attach, number⟩ :: t ∧ ∀ g < e.groups.length,
        T.spawned[g]? = some (worker b number g filter (token g)) ∧
        Event.main ⟨.act (.newToken g), token g⟩ ∈ T ∧
        ∃ deadline outcome, Event.main ⟨.await g deadline, .done outcome⟩ ∈ T := by
  have hgoes := h.main_reaches
  rw [hdone] at hgoes
  obtain ⟨number, began, count, t₁, t₂, s, missing, htrail, hgroups, -, hnobody, -, -, hreport⟩ :=
    goes_run hgoes.goes_of_done
  obtain ⟨rfl, p, t₃, -, hlast⟩ := hreport report rfl
  have hgoing : s.abort = none := (goes_report hlast).2.2.symm.trans hcalm
  obtain rfl : count = e.groups.length :=
    h.groupCount (Story.mem_of_mainTrail (by simp [htrail]))
  obtain ⟨hlength, hworkers⟩ := hired_of_goes hgroups hgoing
  have hspawned : T.spawned = t₁.filterMap hired? := by
    rw [spawned_eq, htrail, List.filterMap_append, List.filterMap_append,
      hired_of_started hnobody, List.append_nil]
    rfl
  have hgroups' {a : Prog.Exchange (@Move.Resp κ)} (ha : a ∈ t₁) : Event.main a ∈ T := by
    refine Story.mem_of_mainTrail ?_
    rw [htrail]
    exact List.mem_append_right _ (List.mem_append_left _ ha)
  choose! token hturns using
    fun g (hg : g < e.groups.length) => hworkers g g (List.getElem?_range hg)
  rw [hspawned]
  refine ⟨by rw [hlength, List.length_range], number, _, token, htrail, fun g hg => ?_⟩
  obtain ⟨hworker, htoken, outcome, hawaited⟩ := hturns g hg
  exact ⟨hworker, hgroups' htoken, limit.map (began + ·), outcome, hgroups' hawaited⟩

/-- The worker of a group that has been waited for up to its completion has run the whole group. -/
theorem goes_of_completion (h : Plays ⟨run b filter limit catalog results, ws, e⟩ T s')
    (hws : ∀ w ∈ ws, Bygone e.inbox.run w) {number : Nat} {t : MainTrail κ}
    (hattached : T.mainTrail = ⟨.attach, number⟩ :: t) {token : Nat → Nat}
    (hworkers : ∀ j < T.spawned.length,
      T.spawned[j]? = some (worker b number j filter (token j)))
    {g : Nat} {deadline : Option Nat} {outcome : Outcome}
    (haccepted : Event.main ⟨.await g deadline, .done outcome⟩ ∈ T) :
    ∃ target name u x, outcome = outcomeOf name x ∧
      T.workerTrail (ws.length + g) =
        ⟨.groupName g, name⟩ :: (u ++ [⟨.send target (.done g outcome), ()⟩]) ∧
      (Group.run b g filter (token g) (some ⟨number, g⟩)).Goes u x := by
  obtain ⟨i, target, hi, hsent⟩ := sent_of_accepted h hws hattached haccepted
  obtain ⟨j, rfl⟩ := Nat.exists_eq_add_of_le hi
  obtain ⟨w, q, hw, -⟩ := h.reaches_of_mem hsent
  rw [List.getElem?_append_right hi, Nat.add_sub_cancel_left] at hw
  have hprogress : Progressed b number j filter (token j) (T.workerTrail (ws.length + j)) := by
    refine progressed_of_plays h ?_
    rw [List.getElem?_append_right hi, Nat.add_sub_cancel_left]
    exact hworkers j (List.getElem?_eq_some_iff.mp hw).1
  obtain ⟨name, u, x, hsignal, htrail, hrun⟩ :=
    hprogress.trail_of_send (Story.mem_workerTrail hsent)
  cases hsignal
  exact ⟨target, name, u, x, rfl, htrail, hrun⟩

end Whole

end Conformance.Run
