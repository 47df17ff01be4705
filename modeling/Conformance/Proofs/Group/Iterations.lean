import Conformance.Proofs.Group.Attempts
import Conformance.Proofs.Group.Selection

/-!
Iterations as they act on the standing of checks. An iteration is made of three parts, the hook
before the check, the check and the hook after it, and each of them is an attempt with the policy
behind it. The loop is a row of rounds without an error and what puts an end to them.
-/
namespace Conformance

/-- The check that a callback is called for, unless it is called for all checks at once. -/
def Call.check? : Call → Option CheckRef
  | .beforeAll .. | .afterAll .. => none
  | .beforeEach r | .afterEach r | .skip r _ | .before r | .body r | .after r => some r

namespace Group

variable {κ α : Type}

section Policy

/-- The engine after the policy has failed the check in hand. -/
def failed (s : Setting κ) (kind message : String) (current : CheckRef)
    (remaining : List (Member κ)) (e : Engine κ) : Engine κ :=
  remaining.foldl (skipped ("group " ++ s.name ++ " " ++ kind))
    (e.judge current (.error (kind ++ ": " ++ message)))

theorem exec_fail (s : Setting κ) (kind message : String) (current : CheckRef)
    (remaining : List (Member κ)) (e : Engine κ) :
    (fail s kind message current remaining).exec Action.apply e =
      (.ok (.failure s.name kind), failed s kind message current remaining e) := by
  have hexec : (fail s kind message current remaining).exec Action.apply e =
      ((skipAll ("group " ++ s.name ++ " " ++ kind) remaining).bind fun _ =>
        .done (.failure s.name kind)).exec Action.apply
          (e.judge current (.error (kind ++ ": " ++ message))) := rfl
  rw [hexec, Prog.exec_bind, exec_skipAll]
  rfl

theorem standing?_failed (s : Setting κ) (kind message : String) {current : CheckRef}
    (remaining : List (Member κ)) (e : Engine κ) {r : CheckRef} (hr : r ≠ current) :
    (failed s kind message current remaining e).standing? r =
      if r ∈ remaining.map Prod.fst then
        (e.standing? r).map (·.skip ("group " ++ s.name ++ " " ++ kind))
      else e.standing? r := by
  have hne : current ≠ r := fun h => hr h.symm
  rw [failed, standing?_skipAll, Engine.standing?_judge, if_neg hne]

/-- The check in hand is put in error by the policy, even where it is among those to be skipped. -/
theorem standing?_failed_current (s : Setting κ) (kind message : String) {current : CheckRef}
    (remaining : List (Member κ)) {e : Engine κ} {v : Standing} (h : e.standing? current = some v) :
    (failed s kind message current remaining e).standing? current =
      some (v.take (.error (kind ++ ": " ++ message))) := by
  have hsettled := v.isSettled_take_error (kind ++ ": " ++ message)
  rw [failed, standing?_skipAll, Engine.standing?_judge, if_pos rfl, h, Option.map_some]
  split
  · rw [Option.map_some, Standing.skip_of_settled hsettled]
  · rfl

end Policy

section Parts

variable {s : Setting κ} {current : CheckRef} {remaining : List (Member κ)}
  {attempt : Worker κ (Option Trouble)} {e e' : Engine κ}

/-- A part of an iteration that comes to a value, by what its attempt ran into. -/
inductive Part (s : Setting κ) (current : CheckRef) (remaining : List (Member κ))
    (attempt : Worker κ (Option Trouble)) (e : Engine κ) : Option GroupError → Engine κ → Prop
  | well {e' : Engine κ} (h : attempt.exec Action.apply e = (.ok none, e')) :
      Part s current remaining attempt e none e'
  | aborted {message : String} {e' : Engine κ}
      (h : attempt.exec Action.apply e = (.ok (some (.abort message)), e')) :
      Part s current remaining attempt e (some (.aborted message)) e'
  | failed {kind message : String} {e' : Engine κ}
      (h : attempt.exec Action.apply e = (.ok (some (.failure kind message)), e')) :
      Part s current remaining attempt e (some (.failure s.name kind))
        (failed s kind message current remaining e')

theorem part_of_exec {error : Option GroupError}
    (h : (attempt.bind (react s current remaining)).exec Action.apply e = (.ok error, e')) :
    Part s current remaining attempt e error e' := by
  obtain ⟨trouble, e₁, hattempt, hreact⟩ := Prog.exec_bind_ok h
  match trouble with
  | none =>
    cases hreact
    exact .well hattempt
  | some (.abort message) =>
    cases hreact
    exact .aborted hattempt
  | some (.failure kind message) =>
    rw [react, Prog.exec_bind_of_ok (exec_fail s kind message current remaining e₁)] at hreact
    cases hreact
    exact .failed hattempt

theorem Part.exec {error : Option GroupError}
    (h : Part s current remaining attempt e error e') :
    (attempt.bind (react s current remaining)).exec Action.apply e = (.ok error, e') := by
  cases h with
  | well h => exact Prog.exec_bind_of_ok h _
  | aborted h => exact Prog.exec_bind_of_ok h _
  | failed h =>
    rw [Prog.exec_bind_of_ok h, react, Prog.exec_bind_of_ok (exec_fail _ _ _ _ _ _)]
    rfl

/-- The three parts of an iteration with the engines between them. The check itself is left out
when the hook before it failed. -/
structure Parts (s : Setting κ) (m : Member κ) (remaining : List (Member κ)) (e : Engine κ)
    (errors : List GroupError) (e' : Engine κ) where
  before : Option GroupError
  body : Option GroupError
  after : Option GroupError
  ready : Engine κ
  ran : Engine κ
  errors_eq : errors = before.toList ++ body.toList ++ after.toList
  part_before : Part s m.1 remaining
    (tryHook s.behaviour "beforeEach" s.hooks.beforeEach (.beforeEach m.1)) e before ready
  part_body : before = none → Part s m.1 remaining (tryCheck s m) ready body ran
  no_body : before ≠ none → body = none ∧ ran = ready
  part_after : Part s m.1 remaining
    (tryHook s.behaviour "afterEach" s.hooks.afterEach (.afterEach m.1)) ran after e'

theorem parts_of_iteration {m : Member κ} {errors : List GroupError}
    (h : (iteration s m remaining).exec Action.apply e = (.ok errors, e')) :
    Nonempty (Parts s m remaining e errors e') := by
  rw [iteration_eq] at h
  obtain ⟨before, ready, hbefore, hrest⟩ := Prog.exec_bind_ok h
  obtain ⟨body, ran, hbody, hlast⟩ := Prog.exec_bind_ok hrest
  obtain ⟨after, e₁, hafter, hdone⟩ := Prog.exec_bind_ok hlast
  cases hdone
  rw [runHook_eq] at hbefore hafter
  cases before with
  | none =>
    rw [Option.isNone_none, if_pos rfl, runUnlessExcused_eq] at hbody
    exact ⟨⟨none, body, after, ready, ran, rfl, part_of_exec hbefore,
      fun _ => part_of_exec hbody, fun hne => absurd rfl hne, part_of_exec hafter⟩⟩
  | some error =>
    cases hbody
    exact ⟨⟨some error, none, after, ready, ready, rfl, part_of_exec hbefore,
      nofun, fun _ => ⟨rfl, rfl⟩, part_of_exec hafter⟩⟩

end Parts

section Standing

/-- The checks that a callback is handed. -/
def subjects : Call → List CheckRef
  | .beforeAll _ refs | .afterAll _ refs => refs
  | .beforeEach r | .afterEach r | .skip r _ | .before r | .body r | .after r => [r]

/-- Callbacks that set results on no other check than those that they are handed. -/
structure IsLocal (b : Behaviour κ) : Prop where
  act (callback : κ) {call : Call} {r : CheckRef} (hr : r ∉ subjects call) (e : Engine κ) :
    Engine.Keeps r e ((b.act callback call).exec Request.apply e).2
  excuse (callback : κ) {call : Call} {r : CheckRef} (hr : r ∉ subjects call) (e : Engine κ) :
    Engine.Keeps r e ((b.excuse callback call).exec Request.apply e).2

theorem IsNeutral.keeps {op : Action κ} (hop : IsNeutral op) (r : CheckRef) (e : Engine κ) :
    Engine.Keeps r e (op.apply e).2 := by
  intro v hv
  rw [op.standing?_apply_of_some hv]
  cases op with
  | request op =>
    cases op with
    | judge => exact absurd hop id
    | _ => rfl
  | _ => rfl

theorem IsLocal.bears {b : Behaviour κ} (hb : IsLocal b) (r : CheckRef) :
    Bears (Engine.Keeps r) b True (r ∉ subjects ·) where
  toIsEffect := Engine.keeps_isEffect r
  neutral hop e := hop.keeps r e
  act callback _ hcall e _ := hb.act callback hcall e
  excuse callback _ hcall e := hb.excuse callback hcall e

/-- Callbacks that set results on no other check than their own, where they have one. -/
structure IsEachLocal (b : Behaviour κ) : Prop where
  act (callback : κ) {call : Call} {own r : CheckRef} (hown : call.check? = some own)
    (hr : r ≠ own) (e : Engine κ) :
    Engine.Keeps r e ((b.act callback call).exec Request.apply e).2
  excuse (callback : κ) {call : Call} {own r : CheckRef} (hown : call.check? = some own)
    (hr : r ≠ own) (e : Engine κ) :
    Engine.Keeps r e ((b.excuse callback call).exec Request.apply e).2

theorem IsLocal.each {b : Behaviour κ} (hb : IsLocal b) : IsEachLocal b := by
  have hout {call : Call} {own r : CheckRef} (hown : call.check? = some own) (hr : r ≠ own) :
      r ∉ subjects call := by
    cases call with
    | beforeAll => cases hown
    | afterAll => cases hown
    | _ =>
      cases hown
      exact fun hmem => hr (List.mem_singleton.mp hmem)
  exact ⟨fun callback _ _ _ hown hr => hb.act callback (hout hown hr),
    fun callback _ _ _ hown hr => hb.excuse callback (hout hown hr)⟩

theorem IsEachLocal.bears {b : Behaviour κ} (hb : IsEachLocal b) {own r : CheckRef}
    (hr : r ≠ own) : Bears (Engine.Keeps r) b True (·.check? = some own) where
  toIsEffect := Engine.keeps_isEffect r
  neutral hop e := hop.keeps r e
  act callback _ hcall e _ := hb.act callback hcall hr e
  excuse callback _ hcall e := hb.excuse callback hcall hr e

/-- What a check that is still to come hears of an error. -/
def hear (v : Standing) : GroupError → Standing
  | .failure group kind => v.skip (GroupError.failure group kind).text
  | .aborted _ => v

variable {s : Setting κ} {current : CheckRef} {remaining : List (Member κ)}
  {attempt : Worker κ (Option Trouble)} {e e' : Engine κ} {r : CheckRef} {v : Standing}

theorem Part.standing {error : Option GroupError} (h : Part s current remaining attempt e error e')
    (hkeeps : attempt.Has Action.apply (Engine.Keeps r) Prog.Always) (hr : r ≠ current)
    (hv : e.standing? r = some v) :
    e'.standing? r =
      some (if r ∈ remaining.map Prod.fst then error.toList.foldl hear v else v) := by
  cases h with
  | well h =>
    have hkept := hkeeps e trivial v hv
    rw [h] at hkept
    rw [hkept]
    split <;> rfl
  | aborted h =>
    have hkept := hkeeps e trivial v hv
    rw [h] at hkept
    rw [hkept]
    split <;> rfl
  | failed h =>
    have hkept := hkeeps e trivial v hv
    rw [h] at hkept
    rw [standing?_failed s _ _ remaining _ hr, hkept]
    split <;> rfl

theorem IsEachLocal.has_tryHook {b : Behaviour κ} (hb : IsEachLocal b) {own : CheckRef}
    (hr : r ≠ own) (name : String) (hook : Option κ) {call : Call}
    (hcall : call.check? = some own) :
    (tryHook b name hook call).Has Action.apply (Engine.Keeps r) Prog.Always :=
  ((hb.bears hr).has_tryHook name hook hcall).mono fun _ _ => .inl trivial

theorem IsEachLocal.has_tryCheck {m : Member κ} (hb : IsEachLocal s.behaviour) (hr : r ≠ m.1) :
    (tryCheck s m).Has Action.apply (Engine.Keeps r) Prog.Always := by
  refine ((hb.bears hr).has_tryCheck (fun _ => rfl) ?_ ?_).mono fun _ _ => .inl trivial
  · intro phase
    cases phase <;> rfl
  · intro reason e v hv
    rw [Engine.standing?_judge, if_neg fun h => hr h.symm, hv]

/-- What an iteration does to another check: nothing, unless it is still to come. -/
theorem Parts.standing {m : Member κ} {errors : List GroupError}
    (p : Parts s m remaining e errors e') (hb : IsEachLocal s.behaviour) (hr : r ≠ m.1)
    (hv : e.standing? r = some v) :
    e'.standing? r = some (if r ∈ remaining.map Prod.fst then errors.foldl hear v else v) := by
  have hready := p.part_before.standing (hb.has_tryHook hr _ _ rfl) hr hv
  have hran : p.ran.standing? r = some (if r ∈ remaining.map Prod.fst then
      (p.before.toList ++ p.body.toList).foldl hear v else v) := by
    rw [List.foldl_append]
    cases hbefore : p.before with
    | none =>
      have hbody := (p.part_body hbefore).standing (hb.has_tryCheck hr) hr hready
      rw [hbody, hbefore]
      split <;> rfl
    | some error =>
      obtain ⟨hnone, hsame⟩ := p.no_body (by rw [hbefore]; exact nofun)
      rw [hsame, hready, hnone, hbefore]
      rfl
  have herrors : errors.foldl hear v =
      p.after.toList.foldl hear ((p.before.toList ++ p.body.toList).foldl hear v) :=
    (congrArg (List.foldl hear v) p.errors_eq).trans List.foldl_append
  rw [p.part_after.standing (hb.has_tryHook hr _ _ rfl) hr hran, herrors]
  split <;> rfl

def IsFailure : GroupError → Prop
  | .failure .. => True
  | .aborted _ => False

/-- A part that fails settles the check in hand. -/
theorem Part.settled {error : GroupError} (h : Part s current remaining attempt e (some error) e')
    (hfailure : IsFailure error) (hv : e.standing? current = some v) :
    ∃ w, e'.standing? current = some w ∧ w.IsSettled := by
  cases h with
  | aborted => exact absurd hfailure id
  | failed h =>
    obtain ⟨w, hw⟩ := exists_standing_exec attempt hv
    rw [h] at hw
    exact ⟨_, standing?_failed_current s _ _ remaining hw, w.isSettled_take_error _⟩

/-- What is settled before a part is settled after it. -/
theorem Part.staysSettled {error : Option GroupError}
    (h : Part s current remaining attempt e error e') (r : CheckRef) :
    Engine.StaysSettled r e e' := by
  have hstays := staysSettled_exec (attempt.bind (react s current remaining)) r e
  rw [h.exec] at hstays
  exact hstays

theorem Part.exists_standing {error : Option GroupError}
    (h : Part s current remaining attempt e error e') (hv : e.standing? r = some v) :
    ∃ w, e'.standing? r = some w := by
  have hexists := exists_standing_exec (attempt.bind (react s current remaining)) hv
  rw [h.exec] at hexists
  exact hexists

theorem Parts.settled {m : Member κ} {errors : List GroupError}
    (p : Parts s m remaining e errors e') (hv : e.standing? m.1 = some v)
    {error : GroupError} (hmem : error ∈ errors) (hfailure : IsFailure error) :
    ∃ w, e'.standing? m.1 = some w ∧ w.IsSettled := by
  obtain ⟨v₁, hv₁⟩ := p.part_before.exists_standing hv
  have hpassed : p.before = none ∨ ∃ failure, p.before = some failure ∧ p.body = none ∧
      p.ran = p.ready := by
    cases hbefore : p.before with
    | none => exact .inl rfl
    | some failure => exact .inr ⟨failure, rfl, p.no_body (by rw [hbefore]; exact nofun)⟩
  have hsplit : error ∈ p.before.toList ++ p.body.toList ++ p.after.toList :=
    p.errors_eq ▸ hmem
  rcases List.mem_append.mp hsplit with hearly | hafter
  · -- The check is settled before the hook after it is called, and stays so.
    have hran : ∃ w, p.ran.standing? m.1 = some w ∧ w.IsSettled := by
      rcases hpassed with hnone | ⟨failure, hsome, hbody, hran⟩
      · rw [hnone, Option.toList_none, List.nil_append, Option.mem_toList] at hearly
        have hbody := p.part_body hnone
        rw [hearly] at hbody
        exact hbody.settled hfailure hv₁
      · rw [hbody, hsome, Option.toList_none, List.append_nil, Option.mem_toList] at hearly
        have hbefore := p.part_before
        rw [hsome, hearly] at hbefore
        rw [hran]
        exact hbefore.settled hfailure hv
    obtain ⟨w, hw, hsettled⟩ := hran
    exact p.part_after.staysSettled m.1 w hw hsettled
  · have hran : ∃ w, p.ran.standing? m.1 = some w := by
      rcases hpassed with hnone | ⟨failure, -, -, hran⟩
      · exact (p.part_body hnone).exists_standing hv₁
      · exact ⟨v₁, hran ▸ hv₁⟩
    obtain ⟨w, hw⟩ := hran
    have hpart := p.part_after
    rw [Option.mem_toList] at hafter
    rw [hafter] at hpart
    exact hpart.settled hfailure hw

end Standing

end Group

end Conformance
