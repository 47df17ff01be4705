import Conformance.Proofs.Group.Rounds
import Conformance.Proofs.Program.Trail

/-!
What a failure makes of the checks of a group. The check in hand ends up in error, the ones after
it are skipped for the last error of its iteration, and the ones before it stay as their own
iterations left them.
-/
namespace Conformance.Group

variable {κ α : Type}

section Aborting

end Aborting

section Hooks

/-- The engine as a hook leaves it, if there is one. -/
def afterHook (b : Behaviour κ) (hook : Option κ) (call : Call) (e : Engine κ) : Engine κ :=
  match hook with
  | none => e
  | some callback => ((Worker.call call (b.act callback call)).exec Action.apply e).2

theorem exec_tryHook (b : Behaviour κ) (name : String) (hook : Option κ) (call : Call)
    (e : Engine κ) :
    ((tryHook b name hook call).exec Action.apply e).2 = afterHook b hook call e := by
  cases hook with
  | none => rfl
  | some callback =>
    have htrouble : ∀ result (e : Engine κ),
        ((hookTrouble name result).exec Action.apply e).2 = e := by
      intro result e
      match result with
      | .ok (.ok ()) => rfl
      | .ok (.error failure) =>
        simp only [hookTrouble, Failure.text]
        cases failure.text? <;> rfl
      | .error panic => rfl
    rw [tryHook, Prog.exec_bind, afterHook]
    generalize (Worker.call call (b.act callback call)).exec Action.apply e = y
    obtain ⟨x, e₁⟩ := y
    cases x with
    | ok result => exact htrouble result e₁
    | error panic => rfl

/-- A request to abort that a hook returns is an error like any other. -/
theorem tryHook_ne_abort (b : Behaviour κ) (name : String) (hook : Option κ) (call : Call)
    (e : Engine κ) (message : String) (e' : Engine κ) :
    (tryHook b name hook call).exec Action.apply e ≠ (.ok (some (.abort message)), e') := by
  intro h
  cases hook with
  | none => cases h
  | some callback =>
    obtain ⟨result, e₁, -, htrouble⟩ := Prog.exec_bind_ok h
    match result with
    | .ok (.ok ()) => cases htrouble
    | .ok (.error failure) =>
      simp only [hookTrouble, Failure.text] at htrouble
      cases htext : failure.text? <;> rw [htext] at htrouble <;> cases htrouble
    | .error panic => cases htrouble

end Hooks

section Reasons

/-- Of several failures in a row, the last gives the reason. -/
theorem foldl_hear {errors : List GroupError} {last : GroupError}
    (hlast : errors.getLast? = some last) (hfailures : ∀ error ∈ errors, IsFailure error)
    (v : Standing) : errors.foldl hear v = v.skip last.text := by
  induction errors generalizing v with
  | nil => cases hlast
  | cons error rest ih =>
    obtain ⟨herror, hrest⟩ := List.forall_mem_cons.mp hfailures
    cases error with
    | aborted message => exact absurd herror id
    | failure group kind =>
      cases rest with
      | nil =>
        cases hlast
        rfl
      | cons next rest =>
        rw [List.foldl_cons, ih (by simpa using hlast) hrest]
        exact v.skip_skip _ _

end Reasons

section Failures

variable {s : Setting κ} {first : Member κ} {rest : List (Member κ)} {e e' : Engine κ}

/-- The part of the hook before all checks. -/
theorem part_beforeAll {error : Option GroupError}
    (h : (runHook s "beforeAll" s.hooks.beforeAll
      (.beforeAll s.group ((first :: rest).map Prod.fst)) first.1 (first :: rest)).exec
        Action.apply e = (.ok error, e')) :
    Part s first.1 (first :: rest) (tryHook s.behaviour "beforeAll" s.hooks.beforeAll
      (.beforeAll s.group ((first :: rest).map Prod.fst))) e error e' := by
  rw [runHook_eq] at h
  exact part_of_exec h

/-- What the failure of a check has made of the others, given the last error of its iteration and
the engine as the hook before all checks left it. -/
structure Propagated (error : GroupError) (done : List (Member κ × Engine κ)) (m : Member κ)
    (later : List (Member κ)) (ready e' : Engine κ) : Prop where
  inHand : ∃ w, e'.standing? m.1 = some w ∧ w.IsSettled
  toCome : ∀ n ∈ later, ∃ v, ready.standing? n.1 = some v ∧
    e'.standing? n.1 = some (v.skip error.text)
  past : ∀ p ∈ done, ∃ v, p.2.standing? p.1.1 = some v ∧ e'.standing? p.1.1 = some v

theorem propagated_beforeAll {error : GroupError} (hfailure : IsFailure error)
    (hbad : (runHook s "beforeAll" s.hooks.beforeAll
      (.beforeAll s.group ((first :: rest).map Prod.fst)) first.1 (first :: rest)).exec
        Action.apply e = (.ok (some error), e'))
    (hnodup : ((first :: rest).map Prod.fst).Nodup)
    (hthere : ∀ n ∈ first :: rest, ∃ v, e.standing? n.1 = some v) :
    Propagated error [] first rest (afterHook s.behaviour s.hooks.beforeAll
      (.beforeAll s.group ((first :: rest).map Prod.fst)) e) e' where
  inHand := by
    obtain ⟨v, hv⟩ := hthere first List.mem_cons_self
    exact (part_beforeAll hbad).settled hfailure hv
  toCome := by
    intro n hn
    obtain ⟨v, hv⟩ := hthere n (List.mem_cons_of_mem first hn)
    have hne : n.1 ≠ first.1 := by
      rintro hsame
      exact (List.nodup_cons.mp hnodup).1 (hsame ▸ List.mem_map_of_mem hn)
    have hmem : n.1 ∈ (first :: rest).map Prod.fst :=
      List.mem_map_of_mem (List.mem_cons_of_mem first hn)
    rw [← exec_tryHook s.behaviour "beforeAll"]
    cases part_beforeAll hbad with
    | aborted => exact absurd hfailure id
    | failed hattempt =>
      obtain ⟨w, hw⟩ := exists_standing_exec (tryHook s.behaviour "beforeAll" s.hooks.beforeAll
        (.beforeAll s.group ((first :: rest).map Prod.fst))) hv
      refine ⟨w, hw, ?_⟩
      rw [hattempt] at hw
      rw [standing?_failed s _ _ _ _ hne, if_pos hmem, hw]
      rfl
  past := nofun

variable (hb : IsLocal s.behaviour)

include hb

theorem propagated_iteration {index failed total : Nat} {ms later : List (Member κ)}
    {done : List (Member κ × Engine κ)} {m : Member κ} {ready reached : Engine κ}
    {errors : List GroupError} {last : GroupError}
    (hrounds : Rounds s index failed ms ready done total (m :: later) reached)
    (hbad : (iteration s m later).exec Action.apply reached = (.ok errors, e'))
    (hlast : errors.getLast? = some last) (hfailures : ∀ error ∈ errors, IsFailure error)
    (hnodup : (ms.map Prod.fst).Nodup) (hthere : ∀ n ∈ ms, ∃ v, ready.standing? n.1 = some v) :
    Propagated last done m later ready e' := by
  obtain ⟨p⟩ := parts_of_iteration hbad
  have hdone := hrounds.keeps_done hb.each hnodup
  have hleft := hrounds.exists_standing hthere
  rw [hrounds.members] at hthere
  rw [hrounds.members, List.map_append, List.map_cons, List.nodup_append] at hnodup
  obtain ⟨-, hrest, hapart⟩ := hnodup
  obtain ⟨hm, -⟩ := List.nodup_cons.mp hrest
  have hkept : ∀ r ∈ m.1 :: later.map Prod.fst, Engine.Keeps r ready reached := by
    intro r hr
    refine hrounds.keeps hb.each ?_
    intro q hq hsame
    exact hapart _ (List.mem_map_of_mem (List.mem_map_of_mem hq)) r hr hsame.symm
  refine ⟨?_, ?_, ?_⟩
  · obtain ⟨v, hv⟩ := hthere m (List.mem_append_right _ List.mem_cons_self)
    exact p.settled (hkept m.1 List.mem_cons_self v hv) (List.mem_of_getLast? hlast)
      (hfailures last (List.mem_of_getLast? hlast))
  · intro n hn
    have hmem : n.1 ∈ later.map Prod.fst := List.mem_map_of_mem hn
    obtain ⟨v, hv⟩ := hthere n (List.mem_append_right _ (List.mem_cons_of_mem m hn))
    have hne : n.1 ≠ m.1 := by
      rintro hsame
      exact hm (hsame ▸ hmem)
    refine ⟨v, hv, ?_⟩
    rw [p.standing hb.each hne (hkept n.1 (List.mem_cons_of_mem _ hmem) v hv), if_pos hmem,
      foldl_hear hlast hfailures]
  · intro q hq
    have hmem : q.1.1 ∈ (done.map Prod.fst).map Prod.fst :=
      List.mem_map_of_mem (List.mem_map_of_mem hq)
    obtain ⟨v, hv⟩ := hleft q hq
    refine ⟨v, hv, ?_⟩
    have hne : q.1.1 ≠ m.1 := hapart _ hmem _ List.mem_cons_self
    have hout : q.1.1 ∉ later.map Prod.fst := by
      intro hlater
      exact hapart _ hmem _ (List.mem_cons_of_mem _ hlater) rfl
    rw [p.standing hb.each hne (hdone q hq v hv), if_neg hout]

end Failures

section Closing

variable {s : Setting κ} {first : Member κ} {rest : List (Member κ)} {e e' : Engine κ}

/-- The hook after all checks answers for itself with the last check, and with no other. -/
theorem closing_standing {outcome total : Outcome}
    (h : (closing s first rest outcome).exec Action.apply e = (.ok total, e'))
    (hfailed : total.errors ≠ outcome.errors)
    (hthere : ∃ v, e.standing? (lastOf first rest) = some v) :
    let left := afterHook s.behaviour s.hooks.afterAll
      (.afterAll s.group ((first :: rest).map Prod.fst)) e
    (∀ r ≠ lastOf first rest, e'.standing? r = left.standing? r) ∧
      ∃ v reason, left.standing? (lastOf first rest) = some v ∧
        e'.standing? (lastOf first rest) = some (v.take (.error reason)) := by
  intro left
  obtain ⟨after, e₁, hhook, hdone⟩ := Prog.exec_bind_ok h
  cases hdone
  cases after with
  | none => exact absurd (List.append_nil _) hfailed
  | some error =>
    rw [runHook_eq] at hhook
    obtain ⟨v, hv⟩ := hthere
    cases part_of_exec hhook with
    | aborted hattempt => exact absurd hattempt (tryHook_ne_abort _ _ _ _ _ _ _)
    | @failed _ _ e₂ hattempt =>
      have hleft : left = e₂ := by
        simp only [left]
        rw [← exec_tryHook s.behaviour "afterAll", hattempt]
      rw [hleft]
      refine ⟨fun r hr => ?_, ?_⟩
      · rw [standing?_failed _ _ _ _ _ hr]
        rfl
      · obtain ⟨w, hw⟩ := exists_standing_exec (tryHook s.behaviour "afterAll" s.hooks.afterAll
          (.afterAll s.group ((first :: rest).map Prod.fst))) hv
        rw [hattempt] at hw
        exact ⟨w, _, hw, standing?_failed_current _ _ _ _ hw⟩

theorem lastOf_mem (first : Member κ) (rest : List (Member κ)) :
    lastOf first rest ∈ (first :: rest).map Prod.fst :=
  List.mem_map_of_mem List.getLastD_mem_cons

end Closing

end Conformance.Group
