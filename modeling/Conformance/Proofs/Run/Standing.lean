import Conformance.Proofs.Program.Effect
import Conformance.Proofs.Run.Views

/-!
The standing of a check is its state with the reason for it. Only verdicts change it: an error
gives way to an abort only, an abort to nothing. No check is ever taken away.
-/
namespace Conformance

variable {κ α : Type}

structure Standing where
  state : CheckState
  reason : String
  deriving DecidableEq, Repr

namespace Standing

def start : Standing := ⟨.passed, ""⟩

/-- Whether the check was found in error or aborted, so that a run cannot pass it any more. -/
def IsSettled (v : Standing) : Prop := v.state = .error ∨ v.state = .aborted

instance (v : Standing) : Decidable v.IsSettled := inferInstanceAs (Decidable (_ ∨ _))

/-- What a verdict is about to make of a check, if it does not leave it as it is. -/
def ofVerdict? : Verdict → Option Standing
  | .findings compliant nonCompliant =>
    if !nonCompliant.isEmpty then some ⟨.failed, renderFindings compliant nonCompliant⟩
    else if compliant.isEmpty then some ⟨.skipped, Status.noFindings⟩
    else none
  | .failed reason => some ⟨.failed, reason⟩
  | .skipped reason => some ⟨.skipped, reason⟩
  | .error reason => some ⟨.error, reason⟩
  | .aborted reason => some ⟨.aborted, reason⟩

def take (v : Standing) (verdict : Verdict) : Standing :=
  match ofVerdict? verdict with
  | none => v
  | some w => if v.state = .aborted ∨ (v.state = .error ∧ w.state ≠ .aborted) then v else w

/-- A verdict leaves a check as it is, or has its way. -/
theorem take_cases (v : Standing) (verdict : Verdict) :
    v.take verdict = v ∨ ofVerdict? verdict = some (v.take verdict) := by
  unfold take
  cases ofVerdict? verdict with
  | none => exact .inl rfl
  | some w =>
    simp only
    split
    · exact .inl rfl
    · exact .inr rfl

/-- What becomes of a check that is to be skipped. -/
def skip (v : Standing) (reason : String) : Standing :=
  if v.IsSettled then v else ⟨.skipped, reason⟩

theorem take_skipped (v : Standing) (reason : String) :
    v.take (.skipped reason) = v.skip reason := by
  simp only [take, ofVerdict?, skip, IsSettled]
  by_cases herror : v.state = .error <;> by_cases haborted : v.state = .aborted <;>
    simp [herror, haborted]

theorem take_error (v : Standing) (reason : String) :
    v.take (.error reason) = if v.IsSettled then v else ⟨.error, reason⟩ := by
  simp only [take, ofVerdict?, IsSettled]
  by_cases herror : v.state = .error <;> by_cases haborted : v.state = .aborted <;>
    simp [herror, haborted]

theorem isSettled_take_error (v : Standing) (reason : String) :
    (v.take (.error reason)).IsSettled := by
  rw [take_error]
  split
  · assumption
  · exact .inl rfl

theorem IsSettled.take {v : Standing} (h : v.IsSettled) (verdict : Verdict) :
    (v.take verdict).IsSettled := by
  unfold Standing.take
  cases ofVerdict? verdict with
  | none => exact h
  | some w =>
    simp only
    split
    · exact h
    · rename_i hkeeps
      rcases h with h | h
      · by_cases hw : w.state = .aborted
        · exact .inr hw
        · exact absurd (.inr ⟨h, hw⟩) hkeeps
      · exact absurd (.inl h) hkeeps

/-- A settled check keeps its standing but for an abort. -/
theorem skip_of_settled {v : Standing} (h : v.IsSettled) (reason : String) : v.skip reason = v :=
  if_pos h

theorem skip_skip (v : Standing) (reason later : String) :
    (v.skip reason).skip later = v.skip later := by
  by_cases h : v.IsSettled
  · rw [skip_of_settled h]
  · have hskipped : ¬(v.skip reason).IsSettled := by
      rw [skip, if_neg h]
      exact nofun
    rw [skip, if_neg hskipped, skip, if_neg h]

end Standing

namespace Status

def standing (s : Status) : Standing := ⟨s.state, s.reason⟩

/-- Of the status, a verdict reads and changes the standing and the details only. -/
theorem standing_apply (s : Status) (verdict : Verdict) :
    (s.apply verdict).standing = s.standing.take verdict := by
  obtain ⟨state, reason, details, startedAt, endedAt⟩ := s
  cases verdict with
  | findings compliant nonCompliant =>
    simp only [apply, takeFindings, settle, Standing.take, Standing.ofVerdict?, standing]
    cases state <;> cases nonCompliant <;> cases compliant <;> simp
  | _ =>
    simp only [apply, settle, Standing.take, Standing.ofVerdict?, standing]
    cases state <;> simp

/-- A status but for the times stamped on it. -/
def untimed (s : Status) : Status := { s with startedAt := none, endedAt := none }

theorem untimed_apply (s : Status) (verdict : Verdict) :
    (s.apply verdict).untimed = s.untimed.apply verdict := by
  obtain ⟨state, reason, details, startedAt, endedAt⟩ := s
  cases verdict with
  | findings compliant nonCompliant =>
    simp only [apply, takeFindings, settle, untimed]
    cases state <;> cases nonCompliant <;> cases compliant <;> simp
  | _ =>
    simp only [apply, settle, untimed]
    cases state <;> simp

end Status

namespace Engine

/-- What the verdicts have made of a check. -/
def result? (e : Engine κ) (r : CheckRef) : Option Status :=
  (e.check? r).map fun c => c.status.untimed

def standing? (e : Engine κ) (r : CheckRef) : Option Standing :=
  (e.check? r).map fun c => c.status.standing

theorem standing?_eq (e : Engine κ) (r : CheckRef) :
    e.standing? r = (e.result? r).map Status.standing := by
  rw [result?, Option.map_map]
  rfl

theorem result?_modifyCheck (e : Engine κ) (r : CheckRef) {f : Registered κ → Registered κ}
    (hf : ∀ c, (f c).status.untimed = c.status.untimed) (r' : CheckRef) :
    (e.modifyCheck r f).result? r' = e.result? r' := e.map_check?_modifyCheck r hf r'

theorem result?_modifyGroup (e : Engine κ) (g : Nat) {f : Group κ → Group κ}
    (hf : ∀ group, (f group).checks = group.checks) (r : CheckRef) :
    (e.modifyGroup g f).result? r = e.result? r := by
  rw [result?, check?_modifyGroup e g hf, result?]

theorem result?_log (e : Engine κ) (r : CheckRef) (level : LogLevel) (message : String)
    (r' : CheckRef) : (e.log r level message).result? r' = e.result? r' := by
  refine result?_modifyCheck e r ?_ r'
  intro c
  rfl

theorem result?_judge (e : Engine κ) (r : CheckRef) (verdict : Verdict) (r' : CheckRef) :
    (e.judge r verdict).result? r' =
      if r = r' then (e.result? r').map (·.apply verdict) else e.result? r' := by
  have hjudged : (e.modifyCheck r fun c => { c with status := c.status.apply verdict }).result?
      r' = if r = r' then (e.result? r').map (·.apply verdict) else e.result? r' := by
    simp only [result?, check?_modifyCheck]
    by_cases hr : r = r'
    · rw [if_pos hr, if_pos hr, Option.map_map, Option.map_map]
      exact Option.map_congr fun c _ => c.status.untimed_apply verdict
    · rw [if_neg hr, if_neg hr]
  unfold judge
  cases hcheck : e.check? r with
  | none =>
    by_cases hr : r = r'
    · rw [if_pos hr, result?, ← hr, hcheck]
      rfl
    · rw [if_neg hr]
  | some c =>
    simp only
    split
    · exact hjudged
    · exact (result?_log _ r _ _ r').trans hjudged

theorem result?_send (e : Engine κ) (run : Nat) (signal : Signal) (r : CheckRef) :
    (e.send run signal).result? r = e.result? r := by
  unfold send
  split <;> rfl

theorem result?_register (e : Engine κ) (g : Nat) (check : Check κ) (r : CheckRef) :
    (e.register g check).result? r = e.result? r ∨
      (e.result? r = none ∧ (e.register g check).result? r = some .start) := by
  unfold result?
  rcases e.check?_register g check r with hsame | ⟨hnone, hnew⟩
  · exact .inl (by rw [hsame])
  · exact .inr ⟨by rw [hnone, Option.map_none], by rw [hnew]; rfl⟩

theorem standing?_modifyGroup (e : Engine κ) (g : Nat) {f : Group κ → Group κ}
    (hf : ∀ group, (f group).checks = group.checks) (r : CheckRef) :
    (e.modifyGroup g f).standing? r = e.standing? r := by
  rw [standing?_eq, result?_modifyGroup e g hf, standing?_eq]

theorem standing?_log (e : Engine κ) (r : CheckRef) (level : LogLevel) (message : String)
    (r' : CheckRef) : (e.log r level message).standing? r' = e.standing? r' := by
  rw [standing?_eq, result?_log, standing?_eq]

theorem standing?_judge (e : Engine κ) (r : CheckRef) (verdict : Verdict) (r' : CheckRef) :
    (e.judge r verdict).standing? r' =
      if r = r' then (e.standing? r').map (·.take verdict) else e.standing? r' := by
  rw [standing?_eq, result?_judge, standing?_eq]
  by_cases hr : r = r'
  · rw [if_pos hr, if_pos hr, Option.map_map, Option.map_map]
    exact Option.map_congr fun s _ => s.standing_apply verdict
  · rw [if_neg hr, if_neg hr]

end Engine

/-- The verdict on a check that an operation brings. -/
def Action.verdictOn? (op : Action κ) (r : CheckRef) : Option Verdict :=
  match op with
  | .request (.judge r' verdict) => if r' = r then some verdict else none
  | _ => none

theorem Action.eq_judge_of_verdictOn? {op : Action κ} {r : CheckRef} {verdict : Verdict}
    (h : op.verdictOn? r = some verdict) : op = .request (.judge r verdict) := by
  cases op with
  | request op =>
    cases op with
    | judge r' other =>
      simp only [verdictOn?] at h
      split at h
      · rename_i hr
        cases h
        rw [hr]
      · cases h
    | _ => cases h
  | _ => cases h

def Standing.after (v : Standing) (verdict? : Option Verdict) : Standing :=
  match verdict? with
  | some verdict => v.take verdict
  | none => v

def Status.after (s : Status) (verdict? : Option Verdict) : Status :=
  match verdict? with
  | some verdict => s.apply verdict
  | none => s

theorem Status.standing_after (s : Status) (verdict? : Option Verdict) :
    (s.after verdict?).standing = s.standing.after verdict? := by
  cases verdict? with
  | none => rfl
  | some verdict => exact s.standing_apply verdict

namespace Action

/-- An operation changes a result by the verdict that it brings, or adds a check. -/
theorem result?_apply (op : Action κ) (e : Engine κ) (r : CheckRef) :
    (op.apply e).2.result? r = (e.result? r).map (·.after (op.verdictOn? r)) ∨
      (e.result? r = none ∧ (op.apply e).2.result? r = some .start) := by
  have hsame {e' : Engine κ} (h : e'.result? r = e.result? r) :
      e'.result? r = (e.result? r).map (·.after none) := by
    rw [h]
    exact Option.map_id'.symm
  cases op with
  | request op =>
    cases op with
    | judge r' verdict =>
      refine .inl ?_
      simp only [apply, Request.apply, Engine.result?_judge, verdictOn?]
      by_cases hr : r' = r
      · rw [if_pos hr, if_pos hr]
        rfl
      · rw [if_neg hr, if_neg hr]
        exact Option.map_id'.symm
    | register g check =>
      rcases e.result?_register g check r with h | h
      · exact .inl (hsame h)
      · exact .inr h
    | write r' level message => exact .inl (hsame (e.result?_log r' level message r))
    | abort r' reason =>
      refine .inl (hsame ?_)
      simp only [apply, Request.apply]
      split
      · rfl
      · split
        · exact e.result?_send _ _ r
        · exact e.result?_log r' _ _ r
    | stop g =>
      refine .inl (hsame ?_)
      simp only [apply, Request.apply]
      split <;> rfl
    | interrupt => exact .inl (hsame (e.result?_send _ _ r))
    | _ => exact .inl (hsame rfl)
  | setCursor g cursor =>
    refine .inl (hsame (e.result?_modifyGroup g ?_ r))
    intro group
    rfl
  | newToken g =>
    refine .inl (hsame (e.result?_modifyGroup g ?_ r))
    intro group
    rfl
  | grant r' handle =>
    refine .inl (hsame (e.result?_modifyCheck r' ?_ r))
    intro c
    rfl
  | begin r' =>
    refine .inl (hsame (e.result?_modifyCheck r' ?_ r))
    intro c
    rfl
  | finish r' =>
    refine .inl (hsame (e.result?_modifyCheck r' ?_ r))
    intro c
    rfl
  | send run signal => exact .inl (hsame (e.result?_send run signal r))
  | _ => exact .inl (hsame rfl)

theorem standing?_apply (op : Action κ) (e : Engine κ) (r : CheckRef) :
    (op.apply e).2.standing? r = (e.standing? r).map (·.after (op.verdictOn? r)) ∨
      (e.standing? r = none ∧ (op.apply e).2.standing? r = some .start) := by
  simp only [Engine.standing?_eq]
  rcases op.result?_apply e r with hsome | ⟨hnone, hnew⟩
  · refine .inl ?_
    rw [hsome, Option.map_map, Option.map_map]
    exact Option.map_congr fun s _ => s.standing_after _
  · rw [hnone, hnew]
    exact .inr ⟨rfl, rfl⟩

/-- What an operation does to the result of a check that is there. -/
theorem result?_apply_of_some (op : Action κ) {e : Engine κ} {r : CheckRef} {s : Status}
    (h : e.result? r = some s) :
    (op.apply e).2.result? r = some (s.after (op.verdictOn? r)) := by
  rcases op.result?_apply e r with hsome | ⟨hnone, -⟩
  · rw [hsome, h]
    rfl
  · rw [h] at hnone
    cases hnone

/-- What an operation does to a check that is there. -/
theorem standing?_apply_of_some (op : Action κ) {e : Engine κ} {r : CheckRef} {v : Standing}
    (h : e.standing? r = some v) :
    (op.apply e).2.standing? r = some (v.after (op.verdictOn? r)) := by
  rcases op.standing?_apply e r with hsome | ⟨hnone, -⟩
  · rw [hsome, h]
    rfl
  · rw [h] at hnone
    cases hnone

end Action

namespace Engine

/-- The check keeps its standing. -/
def Keeps (r : CheckRef) (e e' : Engine κ) : Prop :=
  ∀ v, e.standing? r = some v → e'.standing? r = some v

/-- The check stays settled if it is. -/
def StaysSettled (r : CheckRef) (e e' : Engine κ) : Prop :=
  ∀ v, e.standing? r = some v → v.IsSettled → ∃ w, e'.standing? r = some w ∧ w.IsSettled

theorem keeps_isEffect (r : CheckRef) : Prog.IsEffect (Keeps r : Engine κ → Engine κ → Prop) where
  refl _ _ h := h
  trans h h' v hv := h' v (h v hv)

theorem staysSettled_isEffect (r : CheckRef) :
    Prog.IsEffect (StaysSettled r : Engine κ → Engine κ → Prop) where
  refl _ v h hv := ⟨v, h, hv⟩
  trans h h' v hv hsettled := by
    obtain ⟨w, hw, hwsettled⟩ := h v hv hsettled
    exact h' w hw hwsettled

end Engine

/-- Nothing that a worker does unsettles a check. -/
theorem staysSettled_exec (p : Worker κ α) (r : CheckRef) (e : Engine κ) :
    Engine.StaysSettled r e (p.exec Action.apply e).2 := by
  refine Prog.has_of_apply (Engine.staysSettled_isEffect r) ?_ p e trivial
  intro op e v hv hsettled
  refine ⟨_, op.standing?_apply_of_some hv, ?_⟩
  unfold Standing.after
  cases op.verdictOn? r with
  | none => exact hsettled
  | some verdict => exact hsettled.take verdict

/-- Checks stay where they are. -/
theorem exists_standing_exec (p : Worker κ α) {r : CheckRef} {e : Engine κ} {v : Standing}
    (h : e.standing? r = some v) : ∃ w, (p.exec Action.apply e).2.standing? r = some w := by
  have hstays : Prog.IsEffect fun e e' : Engine κ =>
      (∃ v, e.standing? r = some v) → ∃ v, e'.standing? r = some v :=
    ⟨fun _ h => h, fun h h' hv => h' (h hv)⟩
  refine Prog.has_of_apply hstays ?_ p e trivial ⟨v, h⟩
  rintro op e ⟨v, hv⟩
  exact ⟨_, op.standing?_apply_of_some hv⟩

theorem grows_isEffect : Prog.IsEffect (Engine.Grows : Engine κ → Engine κ → Prop) where
  refl _ _ _ h := h
  trans h h' r c hc := h' r c (h r c hc)

theorem grows_worker {p : Worker κ α} {x : Except Panic α} {e e' : Engine κ}
    (h : p.exec Action.apply e = (x, e')) : e.Grows e' := by
  have hgrows := Prog.has_of_apply grows_isEffect Action.grows_apply p e trivial
  rwa [h] at hgrows

theorem grows_callback {p : Callback κ α} {x : Except Panic α} {e e' : Engine κ}
    (h : p.exec Request.apply e = (x, e')) : e.Grows e' := by
  have hgrows := Prog.has_of_apply grows_isEffect Request.grows_apply p e trivial
  rwa [h] at hgrows

end Conformance
