import Conformance.Proofs.Group.Order

/-!
The callbacks that a group run calls when it is run on an engine, as they stand in the history
after it.
-/
namespace Conformance.Group

variable {κ : Type}

/-- The calls that an exchange adds to the history. -/
def called (a : Prog.Exchange (@Action.Resp κ)) : List Call := a.1.call?.toList

theorem called_ofCallback {α : Type} {p : Callback κ α} {t : Trail κ} {x : Except Panic α}
    (h : (Worker.ofCallback p).Goes t x) : t.flatMap called = [] := by
  refine List.flatMap_eq_nil_iff.mpr ?_
  intro a ha
  obtain ⟨op, hop⟩ := Prog.goes_lift h a ha
  rw [called, hop]
  rfl

/-- The calls of a trail are those of the turns that it tells of. -/
theorem Tells.called {b : Behaviour κ} {token : Nat} {t : Trail κ} {turns : List (Turn κ)}
    (h : Tells b token t turns) : t.flatMap called = turns.filterMap Turn.call? := by
  induction h with
  | nil => rfl
  | aside op answer hop _ ih =>
    have hnone : op.call? = none := by
      cases op with
      | enter call => exact absurd hop id
      | _ => rfl
    rw [List.flatMap_cons, ih, Group.called, hnone]
    rfl
  | act hcall _ ih =>
    rw [List.flatMap_cons, List.flatMap_append, called_ofCallback hcall, ih]
    rfl
  | excuse hcall _ ih =>
    rw [List.flatMap_cons, List.flatMap_append, called_ofCallback hcall, ih]
    rfl
  | look _ ih =>
    rw [List.flatMap_cons, ih]
    rfl

theorem RunTurns.of_nil {effect : Failure → Ending} {g : Nat} {hooks : Hooks κ}
    {turns : List (Turn κ)} {ending : Ending} (h : RunTurns effect g hooks [] turns ending)
    (others : Hooks κ) : RunTurns effect g others [] turns ending := by
  cases h with
  | idle h => exact .idle h
  | closed hne => exact absurd rfl hne
  | cut hne => exact absurd rfl hne

/-- For every group, filter and behaviour, what a group run calls on any engine obeys the law of
the order, with the hooks and checks of that engine, and nothing else is called. The order is the
one that is meant exactly where no error whose text cannot be had comes from a callback that a hook
should still have followed. -/
theorem order_of_calls (b : Behaviour κ) (g : Nat) (filter : Label.Filter) (token : Nat)
    (handle : Option AbortHandle) (e : Engine κ) :
    let worker := run b g filter token handle
    let chosen := selected filter (membersOf e g)
    ∃ turns, Tells b token (worker.trail Action.apply e) turns ∧
      (worker.exec Action.apply e).2.calls = e.calls ++ turns.filterMap Turn.call? ∧
      RunTurns .ofFailure g (e.hooksOf g) chosen turns
        (.shown failing (worker.exec Action.apply e).1) ∧
      ((∃ ending, RunTurns .meant g (e.hooksOf g) chosen turns ending) ↔
        Settled (e.hooksOf g) turns) := by
  intro worker chosen
  obtain ⟨rest, hrest⟩ : ∃ rest, worker.trail Action.apply e =
      ⟨.setCursor g none, ()⟩ :: ⟨.request (.checks g), (e.checksOf g).map Registered.check⟩ ::
        rest := by
    have hchecks := e.checksOf_modifyGroup g (f := fun group => { group with cursor := none })
      (fun _ => rfl) g
    rw [← hchecks]
    exact ⟨_, rfl⟩
  have hgoes := Prog.goes_trail Action.apply worker e
  rw [hrest] at hgoes
  obtain ⟨hooks, turns, hhooks, htells, hturns⟩ := course_run hgoes
  have hlaw : RunTurns .ofFailure g (e.hooksOf g) chosen turns
      (.shown failing (worker.exec Action.apply e).1) := by
    rcases hhooks with hmem | hnil
    · have hseen : ⟨.hooks g, hooks⟩ ∈ worker.trail Action.apply e := by
        rw [hrest]
        exact List.mem_cons_of_mem _ (List.mem_cons_of_mem _ hmem)
      obtain ⟨e', hsame, hanswer⟩ := Prog.exists_of_mem_trail Action.apply (·.hooksOf g)
        (fun op e => op.hooksOf_apply e g) hseen
      obtain rfl : hooks = e'.hooksOf g := hanswer
      rw [← hsame]
      exact hturns
    · rw [hnil] at hturns
      have hchosen : chosen = [] := hnil
      rw [hchosen]
      exact hturns.of_nil _
  have htold : Tells b token (worker.trail Action.apply e) turns := by
    rw [hrest]
    exact .aside _ _ trivial (.aside _ _ trivial htells)
  refine ⟨turns, htold, ?_, hlaw, hlaw.meant_iff⟩
  have hlog := Prog.log_exec Action.apply Engine.calls called
    (fun op e => op.calls_apply e) worker e
  rw [hlog, htold.called]

end Conformance.Group
