import Conformance.Proofs.Group.Iterations

/-!
A group run up to the moment at which the hook after all checks is called: the selection, the hook
before all checks, the rounds without an error, and what puts an end to them.
-/
namespace Conformance.Group

variable {κ : Type}

section Rounds

/-- The number of failed checks with one more check counted. -/
def count (failed : Nat) (m : Member κ) (e : Engine κ) : Nat :=
  if ((Request.status m.1).apply e).1.state = .failed then failed + 1 else failed

/-- Iterations without an error, one for each of the first members, with the engine that each of
them left and the number of failed checks so far. -/
inductive Rounds (s : Setting κ) : Nat → Nat → List (Member κ) → Engine κ →
    List (Member κ × Engine κ) → Nat → List (Member κ) → Engine κ → Prop
  | stay (index failed : Nat) (ms : List (Member κ)) (e : Engine κ) :
      Rounds s index failed ms e [] failed ms e
  | round {index failed total : Nat} {m : Member κ} {ms rest : List (Member κ)}
      {done : List (Member κ × Engine κ)} {e e₁ e' : Engine κ}
      (hgoes : e.tokenSet s.token = false)
      (hwell : (iteration s m ms).exec Action.apply e = (.ok [], e₁))
      (hnext : Rounds s (index + 1) (count failed m e₁) ms
        (e₁.modifyGroup s.group fun group => { group with cursor := some (index + 1) })
        done total rest e') :
      Rounds s index failed (m :: ms) e ((m, e₁) :: done) total rest e'

/-- What puts an end to the rounds. -/
inductive RoundsEnd (s : Setting κ) : List (Member κ) → Engine κ → List GroupError → Engine κ →
    Prop
  | finished (e : Engine κ) : RoundsEnd s [] e [] e
  | stopped {e : Engine κ} (m : Member κ) (later : List (Member κ))
      (hstop : e.tokenSet s.token = true) : RoundsEnd s (m :: later) e [] e
  | failed {m : Member κ} {later : List (Member κ)} {e e' : Engine κ} {errors : List GroupError}
      (hgoes : e.tokenSet s.token = false)
      (hbad : (iteration s m later).exec Action.apply e = (.ok errors, e')) (hne : errors ≠ []) :
      RoundsEnd s (m :: later) e errors e'

theorem runFrom_cons (s : Setting κ) (index failed : Nat) (m : Member κ)
    (later : List (Member κ)) : runFrom s index failed (m :: later) =
      (Worker.act (.stopped s.token)).bind fun stopped =>
        if stopped then .done ⟨[], failed⟩ else
          (iteration s m later).bind fun errors =>
            if !errors.isEmpty then .done ⟨errors, failed⟩ else
              (Worker.ask (.status m.1)).bind fun status =>
                (Worker.act (.setCursor s.group (some (index + 1)))).bind fun _ =>
                  runFrom s (index + 1) (if status.state = .failed then failed + 1 else failed)
                    later := rfl

/-- Where a check fails, all that is left to do in its iteration is the hook after the check. -/
theorem exec_iteration_failing {s : Setting κ} {m : Member κ} {later : List (Member κ)}
    {reached opened ran : Engine κ} {error : GroupError}
    (hopened : (runHook s "beforeEach" s.hooks.beforeEach (.beforeEach m.1) m.1 later).exec
      Action.apply reached = (.ok none, opened))
    (hbody : (runUnlessExcused s m later).exec Action.apply opened = (.ok (some error), ran)) :
    (iteration s m later).exec Action.apply reached =
      ((runHook s "afterEach" s.hooks.afterEach (.afterEach m.1) m.1 later).bind fun after =>
        .done (error :: after.toList)).exec Action.apply ran :=
  (Prog.exec_bind_of_ok hopened _).trans (Prog.exec_bind_of_ok hbody _)

/-- The rounds end with an iteration whose check fails. -/
theorem exec_runFrom_failing {s : Setting κ} {m : Member κ} {later : List (Member κ)}
    {reached ran : Engine κ} {error : GroupError} (hgoes : reached.tokenSet s.token = false)
    (hround : (iteration s m later).exec Action.apply reached =
      ((runHook s "afterEach" s.hooks.afterEach (.afterEach m.1) m.1 later).bind fun after =>
        .done (error :: after.toList)).exec Action.apply ran) (index failed : Nat) :
    (runFrom s index failed (m :: later)).exec Action.apply reached =
      ((iteration s m later).bind fun errors => .done ⟨errors, failed⟩).exec
        Action.apply reached := by
  have hlook : (Worker.act (.stopped s.token)).exec Action.apply reached =
      (.ok false, reached) := by
    rw [← hgoes]
    rfl
  rw [runFrom_cons]
  refine (Prog.exec_bind_of_ok hlook _).trans ?_
  simp only [Bool.false_eq_true, if_false]
  rw [Prog.exec_bind, Prog.exec_bind, hround, Prog.exec_bind]
  generalize (runHook s "afterEach" s.hooks.afterEach (.afterEach m.1) m.1 later).exec
    Action.apply ran = y
  obtain ⟨x, last⟩ := y
  cases x <;> rfl

theorem rounds_of_runFrom {s : Setting κ} {ms : List (Member κ)} :
    ∀ {index failed : Nat} {e e' : Engine κ} {outcome : Outcome},
      (runFrom s index failed ms).exec Action.apply e = (.ok outcome, e') →
      ∃ done rest e₁, Rounds s index failed ms e done outcome.failed rest e₁ ∧
        RoundsEnd s rest e₁ outcome.errors e' := by
  induction ms with
  | nil =>
    intro index failed e e' outcome h
    cases h
    exact ⟨[], [], e, .stay index failed [] e, .finished e⟩
  | cons m later ih =>
    intro index failed e e' outcome h
    rw [runFrom_cons] at h
    obtain ⟨stopped, e₀, hlook, hgone⟩ := Prog.exec_bind_ok h
    obtain ⟨hstopped, rfl⟩ : stopped = e.tokenSet s.token ∧ e₀ = e := by
      cases hlook
      exact ⟨rfl, rfl⟩
    cases hstop : e₀.tokenSet s.token with
    | true =>
      rw [hstopped, hstop] at hgone
      cases hgone
      exact ⟨[], m :: later, _, .stay index failed _ _, .stopped m later hstop⟩
    | false =>
      rw [hstopped, hstop] at hgone
      obtain ⟨errors, e₁, hround, hrest⟩ := Prog.exec_bind_ok hgone
      cases errors with
      | cons error errors =>
        cases hrest
        refine ⟨[], m :: later, _, .stay index failed _ _, .failed hstop hround ?_⟩
        exact List.cons_ne_nil _ _
      | nil =>
        have hlater : (runFrom s (index + 1) (count failed m e₁) later).exec Action.apply
            (e₁.modifyGroup s.group fun group => { group with cursor := some (index + 1) }) =
            (.ok outcome, e') := hrest
        obtain ⟨done, rest, e₂, hrounds, hend⟩ := ih hlater
        exact ⟨(m, e₁) :: done, rest, e₂, .round hstop hround hrounds, hend⟩

variable {s : Setting κ} {index failed total : Nat} {ms rest : List (Member κ)}
  {done : List (Member κ × Engine κ)} {e e' : Engine κ}

theorem Rounds.members (h : Rounds s index failed ms e done total rest e') :
    ms = done.map Prod.fst ++ rest := by
  induction h with
  | stay => rfl
  | round _ _ _ ih => rw [ih, List.map_cons, List.cons_append]

/-- What is left to do after some rounds. -/
theorem Rounds.exec (h : Rounds s index failed ms e done total rest e') :
    (runFrom s index failed ms).exec Action.apply e =
      (runFrom s (index + done.length) total rest).exec Action.apply e' := by
  induction h with
  | stay => rfl
  | @round index failed total m ms rest done e e₁ e' hgoes hwell hnext ih =>
    have hlook : (Worker.act (.stopped s.token)).exec Action.apply e = (.ok false, e) := by
      rw [← hgoes]
      rfl
    have hrest : (runFrom s index failed (m :: ms)).exec Action.apply e =
        (runFrom s (index + 1) (count failed m e₁) ms).exec Action.apply
          (e₁.modifyGroup s.group fun group => { group with cursor := some (index + 1) }) := by
      rw [runFrom_cons]
      exact (Prog.exec_bind_of_ok hlook _).trans (Prog.exec_bind_of_ok hwell _)
    rw [hrest, ih, List.length_cons, Nat.add_right_comm, Nat.add_assoc]

theorem keeps_setCursor (g : Nat) (cursor : Option Nat) (r : CheckRef) (e : Engine κ) :
    Engine.Keeps r e (e.modifyGroup g fun group => { group with cursor := cursor }) := by
  intro v hv
  refine (e.standing?_modifyGroup g ?_ r).trans hv
  intro group
  rfl

/-- An iteration without an error changes no check but its own. -/
theorem keeps_iteration (hb : IsEachLocal s.behaviour) {m : Member κ}
    (h : (iteration s m ms).exec Action.apply e = (.ok [], e')) {r : CheckRef} (hr : r ≠ m.1) :
    Engine.Keeps r e e' := by
  obtain ⟨p⟩ := parts_of_iteration h
  intro v hv
  rw [p.standing hb hr hv]
  split <;> rfl

theorem Rounds.keeps (h : Rounds s index failed ms e done total rest e')
    (hb : IsEachLocal s.behaviour) {r : CheckRef} (hr : ∀ p ∈ done, r ≠ p.1.1) :
    Engine.Keeps r e e' := by
  induction h with
  | stay index failed ms e => exact (Engine.keeps_isEffect r).refl e
  | round _ hwell _ ih =>
    obtain ⟨hm, hdone⟩ := List.forall_mem_cons.mp hr
    exact (Engine.keeps_isEffect r).trans (keeps_iteration hb hwell hm)
      ((Engine.keeps_isEffect r).trans (keeps_setCursor _ _ r _) (ih hdone))

/-- What a round leaves on its own check stays as it is in the rounds after it. -/
theorem Rounds.keeps_done (h : Rounds s index failed ms e done total rest e')
    (hb : IsEachLocal s.behaviour) (hnodup : (ms.map Prod.fst).Nodup) :
    ∀ p ∈ done, Engine.Keeps p.1.1 p.2 e' := by
  induction h with
  | stay => exact List.forall_mem_nil _
  | @round _ _ _ m ms rest done _ _ _ _ _ hnext ih =>
    obtain ⟨hm, hms⟩ := List.nodup_cons.mp hnodup
    refine List.forall_mem_cons.mpr ⟨?_, ih hms⟩
    refine (Engine.keeps_isEffect m.1).trans (keeps_setCursor _ _ _ _) (hnext.keeps hb ?_)
    intro p hp hsame
    refine hm ?_
    rw [hnext.members, List.map_append, hsame]
    exact List.mem_append_left _ (List.mem_map_of_mem (List.mem_map_of_mem hp))

theorem Rounds.exists_standing (h : Rounds s index failed ms e done total rest e')
    (hthere : ∀ n ∈ ms, ∃ v, e.standing? n.1 = some v) :
    ∀ p ∈ done, ∃ v, p.2.standing? p.1.1 = some v := by
  induction h with
  | stay => exact List.forall_mem_nil _
  | @round _ _ _ m ms _ _ e e₁ _ _ hwell _ ih =>
    have hafter : ∀ n ∈ m :: ms, ∃ v, e₁.standing? n.1 = some v := by
      intro n hn
      obtain ⟨v, hv⟩ := hthere n hn
      have hexists := exists_standing_exec (iteration s m ms) hv
      rw [hwell] at hexists
      exact hexists
    refine List.forall_mem_cons.mpr ⟨hafter m List.mem_cons_self, ih ?_⟩
    intro n hn
    obtain ⟨v, hv⟩ := hafter n (List.mem_cons_of_mem m hn)
    exact ⟨v, keeps_setCursor _ _ _ _ v hv⟩

end Rounds

section Whole

def settingOn (b : Behaviour κ) (g token : Nat) (handle : Option AbortHandle) (e : Engine κ) :
    Setting κ :=
  ⟨b, g, ((Action.groupName g).apply e).1, e.hooksOf g, token, handle⟩

/-- The part of a run before the hook after all checks. -/
def upToLast (s : Setting κ) (first : Member κ) (rest : List (Member κ)) : Worker κ Outcome :=
  (runHook s "beforeAll" s.hooks.beforeAll
    (.beforeAll s.group ((first :: rest).map Prod.fst)) first.1 (first :: rest)).bind fun
    | some error => .done ⟨[error], 0⟩
    | none => (Worker.act (.setCursor s.group (some 0))).bind fun _ => runFrom s 0 0 (first :: rest)

def lastOf (first : Member κ) (rest : List (Member κ)) : CheckRef := (rest.getLastD first).1

/-- The rest of a run, from the hook after all checks on. -/
def closing (s : Setting κ) (first : Member κ) (rest : List (Member κ)) (outcome : Outcome) :
    Worker κ Outcome :=
  (runHook s "afterAll" s.hooks.afterAll (.afterAll s.group ((first :: rest).map Prod.fst))
    (lastOf first rest) []).bind fun after => .done ⟨outcome.errors ++ after.toList, outcome.failed⟩

theorem runSelected_eq (s : Setting κ) (first : Member κ) (rest : List (Member κ)) :
    runSelected s first rest = (upToLast s first rest).bind (closing s first rest) := by
  simp only [runSelected, upToLast, Prog.bind_eq, Prog.bind_assoc, List.getLast_eq_getLastD]
  congr 1
  funext before
  cases before with
  | some error => rfl
  | none => rfl

/-- What becomes of the part before the hook after all checks. -/
theorem upToLast_cases {s : Setting κ} {first : Member κ} {rest : List (Member κ)}
    {e e' : Engine κ} {outcome : Outcome}
    (h : (upToLast s first rest).exec Action.apply e = (.ok outcome, e')) :
    (∃ error, outcome = ⟨[error], 0⟩ ∧ (runHook s "beforeAll" s.hooks.beforeAll
      (.beforeAll s.group ((first :: rest).map Prod.fst)) first.1 (first :: rest)).exec
        Action.apply e = (.ok (some error), e')) ∨
    ∃ ready done remaining reached, (runHook s "beforeAll" s.hooks.beforeAll
      (.beforeAll s.group ((first :: rest).map Prod.fst)) first.1 (first :: rest)).exec
        Action.apply e = (.ok none, ready) ∧
      Rounds s 0 0 (first :: rest)
        (ready.modifyGroup s.group fun group => { group with cursor := some 0 }) done
        outcome.failed remaining reached ∧
      RoundsEnd s remaining reached outcome.errors e' := by
  obtain ⟨before, ready, hbefore, hrest⟩ := Prog.exec_bind_ok h
  cases before with
  | some error =>
    cases hrest
    exact .inl ⟨error, rfl, hbefore⟩
  | none =>
    have hloop : (runFrom s 0 0 (first :: rest)).exec Action.apply
        (ready.modifyGroup s.group fun group => { group with cursor := some 0 }) =
        (.ok outcome, e') := hrest
    obtain ⟨done, remaining, reached, hrounds, hend⟩ := rounds_of_runFrom hloop
    exact .inr ⟨ready, done, remaining, reached, hbefore, hrounds, hend⟩

/-- What a run does with the members that it has selected. -/
def runChosen (b : Behaviour κ) (g token : Nat) (handle : Option AbortHandle) :
    List (Member κ) → Worker κ Outcome
  | [] => .done ⟨[], 0⟩
  | first :: rest => (Worker.act (.hooks g)).bind fun hooks =>
    (Worker.act (.groupName g)).bind fun name =>
      runSelected ⟨b, g, name, hooks, token, handle⟩ first rest

theorem exec_run_selected (b : Behaviour κ) (g : Nat) (filter : Label.Filter) (token : Nat)
    (handle : Option AbortHandle) (e : Engine κ) :
    (run b g filter token handle).exec Action.apply e =
      (runChosen b g token handle (selected filter (membersOf e g))).exec Action.apply
        (selecting g filter e) := by
  have hchecks : (e.modifyGroup g fun group => { group with cursor := none }).checksOf g =
      e.checksOf g := by
    refine e.checksOf_modifyGroup g ?_ g
    intro group
    rfl
  have hstart : (run b g filter token handle).exec Action.apply e =
      ((select filter
          (membersOf (e.modifyGroup g fun group => { group with cursor := none }) g)).bind
        fun chosen => match chosen with
          | [] => .done ⟨[], 0⟩
          | first :: rest => (Worker.act (.hooks g)).bind fun hooks =>
            (Worker.act (.groupName g)).bind fun name =>
              runSelected ⟨b, g, name, hooks, token, handle⟩ first rest).exec Action.apply
                (e.modifyGroup g fun group => { group with cursor := none }) := rfl
  rw [hstart, membersOf, hchecks, Prog.exec_bind_of_ok (exec_select _ _ _), ← membersOf, selected]
  cases (membersOf e g).filter fun m => filter.selects m.2.labels with
  | nil => rfl
  | cons first rest => rfl

variable {b : Behaviour κ} {g : Nat} {filter : Label.Filter} {token : Nat}
  {handle : Option AbortHandle} {e : Engine κ}

theorem exec_run {first : Member κ} {rest : List (Member κ)}
    (h : selected filter (membersOf e g) = first :: rest) :
    (run b g filter token handle).exec Action.apply e =
      (runSelected (settingOn b g token handle (selecting g filter e)) first
        rest).exec Action.apply (selecting g filter e) := by
  rw [exec_run_selected, h]
  rfl

end Whole

end Conformance.Group
