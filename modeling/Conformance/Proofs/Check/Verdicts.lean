import Conformance.Proofs.Run.Standing
import Mathlib.Data.List.TakeWhile

/-!
What a row of verdicts makes of a new check, whatever their order and whoever gives them. The first
abort decides. Without one the first error does, and without either the last of the verdicts that
fail or skip the check. Findings are kept as details up to the first abort, errors or not.
-/
namespace Conformance

variable {κ : Type}

namespace Verdict

def abort? : Verdict → Option String
  | aborted reason => some reason
  | _ => none

def error? : Verdict → Option String
  | error reason => some reason
  | _ => none

def details? : Verdict → Option String
  | findings compliant nonCompliant => some (renderFindings compliant nonCompliant)
  | _ => none

/-- The details that a row of verdicts leaves a new check with. -/
def detailsOf (verdicts : List Verdict) : String :=
  ((verdicts.takeWhile fun verdict => verdict.abort?.isNone).filterMap details?).getLast?.getD ""

end Verdict

namespace Standing

open Verdict

/-- The standing that a row of verdicts leaves a new check in. -/
def ofVerdicts (verdicts : List Verdict) : Standing :=
  match verdicts.findSome? abort? with
  | some reason => ⟨.aborted, reason⟩
  | none =>
    match verdicts.findSome? error? with
    | some reason => ⟨.error, reason⟩
    | none => (verdicts.filterMap ofVerdict?).getLast?.getD .start

theorem ofVerdicts_of_abort {verdicts : List Verdict} {reason : String}
    (h : verdicts.findSome? abort? = some reason) : ofVerdicts verdicts = ⟨.aborted, reason⟩ := by
  rw [ofVerdicts, h]

theorem ofVerdicts_of_error {verdicts : List Verdict} {reason : String}
    (habort : verdicts.findSome? abort? = none) (h : verdicts.findSome? error? = some reason) :
    ofVerdicts verdicts = ⟨.error, reason⟩ := by
  rw [ofVerdicts, habort, h]

theorem ofVerdicts_of_none {verdicts : List Verdict} (habort : verdicts.findSome? abort? = none)
    (herror : verdicts.findSome? error? = none) :
    ofVerdicts verdicts = (verdicts.filterMap ofVerdict?).getLast?.getD .start := by
  rw [ofVerdicts, habort, herror]

/-- A verdict of neither an abort nor an error settles nothing. -/
theorem not_isSettled_of_ofVerdict? {verdict : Verdict} {v : Standing}
    (habort : verdict.abort? = none) (herror : verdict.error? = none)
    (h : ofVerdict? verdict = some v) : ¬v.IsSettled := by
  cases verdict with
  | findings compliant nonCompliant =>
    simp only [ofVerdict?] at h
    split at h
    · cases h
      simp [IsSettled]
    · split at h
      · cases h
        simp [IsSettled]
      · cases h
  | failed reason =>
    cases h
    simp [IsSettled]
  | skipped reason =>
    cases h
    simp [IsSettled]
  | error reason => cases herror
  | aborted reason => cases habort

theorem not_isSettled_ofVerdicts {verdicts : List Verdict}
    (habort : verdicts.findSome? abort? = none) (herror : verdicts.findSome? error? = none) :
    ¬(ofVerdicts verdicts).IsSettled := by
  rw [ofVerdicts_of_none habort herror]
  cases hlast : (verdicts.filterMap ofVerdict?).getLast? with
  | none => exact nofun
  | some v =>
    obtain ⟨verdict, hmem, hv⟩ := List.mem_filterMap.mp (List.mem_of_getLast? hlast)
    exact not_isSettled_of_ofVerdict? (List.findSome?_eq_none_iff.mp habort verdict hmem)
      (List.findSome?_eq_none_iff.mp herror verdict hmem) hv

theorem take_of_not_isSettled {v : Standing} (h : ¬v.IsSettled) (verdict : Verdict) :
    v.take verdict = (ofVerdict? verdict).getD v := by
  unfold take
  cases ofVerdict? verdict with
  | none => rfl
  | some w =>
    refine if_neg ?_
    rintro (haborted | ⟨herror, -⟩)
    · exact h (.inr haborted)
    · exact h (.inl herror)

theorem take_of_aborted {v : Standing} (h : v.state = .aborted) (verdict : Verdict) :
    v.take verdict = v := by
  unfold take
  cases ofVerdict? verdict with
  | none => rfl
  | some w => exact if_pos (.inl h)

/-- An error takes in nothing but an abort. -/
theorem take_of_error {v : Standing} (h : v.state = .error) {verdict : Verdict}
    (hverdict : verdict.abort? = none) : v.take verdict = v := by
  unfold take
  cases hw : ofVerdict? verdict with
  | none => rfl
  | some w =>
    refine if_pos (.inr ⟨h, ?_⟩)
    intro haborted
    cases herror : verdict.error? with
    | none => exact not_isSettled_of_ofVerdict? hverdict herror hw (.inr haborted)
    | some reason =>
      cases verdict with
      | error reason =>
        cases hw
        cases haborted
      | _ => cases herror

theorem take_aborted {v : Standing} (h : v.state ≠ .aborted) (reason : String) :
    v.take (.aborted reason) = ⟨.aborted, reason⟩ := by
  refine if_neg ?_
  rintro (haborted | ⟨-, hne⟩)
  · exact h haborted
  · exact hne rfl

theorem state_ofVerdicts_ne_aborted {verdicts : List Verdict}
    (habort : verdicts.findSome? abort? = none) : (ofVerdicts verdicts).state ≠ .aborted := by
  cases herror : verdicts.findSome? error? with
  | some reason =>
    rw [ofVerdicts_of_error habort herror]
    exact nofun
  | none => exact fun h => not_isSettled_ofVerdicts habort herror (.inr h)

/-- One more verdict, where no abort was given before. -/
theorem ofVerdicts_concat_of_none {verdicts : List Verdict}
    (habort : verdicts.findSome? abort? = none) {verdict : Verdict}
    (hverdict : verdict.abort? = none) :
    ofVerdicts (verdicts ++ [verdict]) = (ofVerdicts verdicts).take verdict := by
  have hnone : (verdicts ++ [verdict]).findSome? abort? = none := by
    simp [List.findSome?_append, habort, hverdict]
  have herrors : (verdicts ++ [verdict]).findSome? error? =
      (verdicts.findSome? error?).or verdict.error? := by
    simp [List.findSome?_append]
  cases herror : verdicts.findSome? error? with
  | some reason =>
    rw [herror, Option.some_or] at herrors
    rw [ofVerdicts_of_error habort herror, ofVerdicts_of_error hnone herrors]
    exact (take_of_error rfl hverdict).symm
  | none =>
    rw [herror, Option.none_or] at herrors
    rw [take_of_not_isSettled (not_isSettled_ofVerdicts habort herror)]
    cases hnew : verdict.error? with
    | some reason =>
      rw [ofVerdicts_of_error hnone (herrors.trans hnew)]
      cases verdict with
      | error reason' =>
        cases hnew
        rfl
      | _ => cases hnew
    | none =>
      rw [ofVerdicts_of_none hnone (herrors.trans hnew), ofVerdicts_of_none habort herror,
        List.filterMap_append]
      cases hv : ofVerdict? verdict with
      | none => simp [hv]
      | some v => simp [hv]

/-- One more verdict is taken in as the standing before it allows. -/
theorem ofVerdicts_concat (verdicts : List Verdict) (verdict : Verdict) :
    ofVerdicts (verdicts ++ [verdict]) = (ofVerdicts verdicts).take verdict := by
  have haborts : (verdicts ++ [verdict]).findSome? abort? =
      (verdicts.findSome? abort?).or verdict.abort? := by
    simp [List.findSome?_append]
  cases habort : verdicts.findSome? abort? with
  | some reason =>
    rw [habort, Option.some_or] at haborts
    rw [ofVerdicts_of_abort habort, ofVerdicts_of_abort haborts]
    exact (take_of_aborted rfl verdict).symm
  | none =>
    cases hverdict : verdict.abort? with
    | none => exact ofVerdicts_concat_of_none habort hverdict
    | some reason =>
      rw [habort, Option.none_or] at haborts
      rw [ofVerdicts_of_abort (haborts.trans hverdict)]
      cases verdict with
      | aborted reason' =>
        cases hverdict
        exact (take_aborted (state_ofVerdicts_ne_aborted habort) reason).symm
      | _ => cases hverdict

theorem state_ofVerdicts_eq_aborted {verdicts : List Verdict} {verdict : Verdict}
    (hmem : verdict ∈ verdicts) (h : verdict.abort? ≠ none) :
    (ofVerdicts verdicts).state = .aborted := by
  cases habort : verdicts.findSome? abort? with
  | some reason => rw [ofVerdicts_of_abort habort]
  | none => exact absurd (List.findSome?_eq_none_iff.mp habort verdict hmem) h

end Standing

namespace Verdict

/-- Details come in as long as no abort was given. -/
theorem detailsOf_concat (verdicts : List Verdict) (verdict : Verdict) :
    detailsOf (verdicts ++ [verdict]) =
      if (Standing.ofVerdicts verdicts).state = .aborted then detailsOf verdicts
      else verdict.details?.getD (detailsOf verdicts) := by
  unfold detailsOf
  rw [List.takeWhile_append]
  by_cases hopen : ∀ v ∈ verdicts, v.abort?.isNone
  · have hnone : verdicts.findSome? abort? = none :=
      List.findSome?_eq_none_iff.mpr fun v hv => Option.isNone_iff_eq_none.mp (hopen v hv)
    rw [if_neg (Standing.state_ofVerdicts_ne_aborted hnone), List.takeWhile_eq_self_iff.mpr hopen,
      if_pos rfl, List.filterMap_append]
    cases verdict <;> simp [details?, abort?]
  · have hcut : (verdicts.takeWhile fun v => v.abort?.isNone).length ≠ verdicts.length := by
      intro hlength
      refine hopen (List.takeWhile_eq_self_iff.mp ?_)
      exact (List.takeWhile_sublist _).eq_of_length hlength
    obtain ⟨v, hmem, hv⟩ : ∃ v ∈ verdicts, ¬v.abort?.isNone := by simpa using hopen
    rw [if_neg hcut, if_pos]
    exact Standing.state_ofVerdicts_eq_aborted hmem (by simpa using hv)

end Verdict

namespace Status

theorem details_apply (s : Status) (verdict : Verdict) :
    (s.apply verdict).details =
      if s.state = .aborted then s.details else verdict.details?.getD s.details := by
  obtain ⟨state, reason, details, startedAt, endedAt⟩ := s
  cases verdict with
  | findings compliant nonCompliant =>
    simp only [apply, takeFindings, settle, Verdict.details?]
    cases state <;> cases nonCompliant <;> cases compliant <;> simp
  | _ =>
    simp only [apply, settle, Verdict.details?]
    cases state <;> simp

/-- A status that a row of verdicts can have left a new check in. -/
def Follows (s : Status) (verdicts : List Verdict) : Prop :=
  s.standing = .ofVerdicts verdicts ∧ s.details = Verdict.detailsOf verdicts

theorem follows_start : start.Follows [] := ⟨rfl, rfl⟩

theorem Follows.apply {s : Status} {verdicts : List Verdict} (h : s.Follows verdicts)
    (verdict : Verdict) : (s.apply verdict).Follows (verdicts ++ [verdict]) := by
  obtain ⟨hstanding, hdetails⟩ := h
  constructor
  · rw [standing_apply, hstanding, Standing.ofVerdicts_concat]
  · have hstate : s.state = (Standing.ofVerdicts verdicts).state :=
      congrArg Standing.state hstanding
    rw [details_apply, hstate, hdetails, Verdict.detailsOf_concat]

end Status

/-- What operations of any number of callers leave, each done at one go. -/
def Action.applyAll (ops : List (Action κ)) (e : Engine κ) : Engine κ :=
  ops.foldl (fun e op => (op.apply e).2) e

theorem Action.applyAll_cons (op : Action κ) (ops : List (Action κ)) (e : Engine κ) :
    Action.applyAll (op :: ops) e = Action.applyAll ops (op.apply e).2 := rfl

theorem Action.follows_applyAll (ops : List (Action κ)) {e : Engine κ} {r : CheckRef}
    {s : Status} {verdicts : List Verdict} (h : e.result? r = some s) (hs : s.Follows verdicts) :
    ∃ s', (Action.applyAll ops e).result? r = some s' ∧
      s'.Follows (verdicts ++ ops.filterMap (·.verdictOn? r)) := by
  induction ops generalizing e s verdicts with
  | nil => exact ⟨s, h, by rwa [List.filterMap_nil, List.append_nil]⟩
  | cons op ops ih =>
    have hnext := op.result?_apply_of_some h
    rw [applyAll_cons]
    cases hverdict : op.verdictOn? r with
    | none =>
      rw [hverdict] at hnext
      simp only [List.filterMap_cons, hverdict]
      exact ih hnext hs
    | some verdict =>
      rw [hverdict] at hnext
      simp only [List.filterMap_cons, hverdict]
      rw [List.append_cons]
      exact ih hnext (hs.apply verdict)

/-- Whatever is done around them, the verdicts on a new check decide about it by their rank and
their order alone. -/
theorem verdicts_in_closed_form (ops : List (Action κ)) {e : Engine κ} {r : CheckRef}
    {c : Registered κ} (h : e.check? r = some c) (hnew : c.status = .start) :
    ∃ c', (Action.applyAll ops e).check? r = some c' ∧
      c'.status.standing = .ofVerdicts (ops.filterMap (·.verdictOn? r)) ∧
      c'.status.details = Verdict.detailsOf (ops.filterMap (·.verdictOn? r)) := by
  have hstart : e.result? r = some .start := by
    rw [Engine.result?, h, Option.map_some, hnew]
    rfl
  obtain ⟨s, hs, hstanding, hdetails⟩ := Action.follows_applyAll ops hstart Status.follows_start
  obtain ⟨c', hc', rfl⟩ := Option.map_eq_some_iff.mp hs
  exact ⟨c', hc', hstanding, hdetails⟩

theorem verdicts_in_closed_form_mixed :
    let r : CheckRef := ⟨0, 0⟩
    let e : Engine Unit := { (Engine.start 0 : Engine Unit) with
      groups := [{ Group.fresh "g" with checks := [.fresh (.new "a" ["common"])] }] }
    let finding : Finding := ⟨"Node", [], []⟩
    let judge (verdict : Verdict) : Action Unit := .request (.judge r verdict)
    let ops := [judge (.failed "late"), judge (.error "broken"), judge (.skipped "later"),
      .finish r, judge (.findings [] [finding]), judge (.error "again"), judge (.aborted "stop"),
      judge (.findings [finding] []), judge (.aborted "stop again")]
    ∃ c', (Action.applyAll ops e).check? r = some c' ∧
      c'.status.standing = ⟨.aborted, "stop"⟩ ∧
      c'.status.details = renderFindings [] [finding] := by
  intro r e finding judge ops
  obtain ⟨c', hc', hstanding, hdetails⟩ :=
    verdicts_in_closed_form ops (e := e) (r := r) (c := .fresh (.new "a" ["common"])) rfl rfl
  exact ⟨c', hc', hstanding, hdetails⟩

end Conformance
