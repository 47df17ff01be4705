import Conformance.Proofs.Group.Lifecycle

/-!
Every trail of a group run tells of turns that obey the law of its order. There is one lemma for
each part of the run, from logging and judging, which call nothing, to the run as a whole.
-/
namespace Conformance.Group

variable {κ α β : Type}

section Tells

variable {b : Behaviour κ} {token : Nat} {t u : Trail κ} {turns others : List (Turn κ)}

theorem Tells.append (h : Tells b token t turns) (hu : Tells b token u others) :
    Tells b token (t ++ u) (turns ++ others) := by
  induction h with
  | nil => exact hu
  | aside op answer hop _ ih => exact .aside op answer hop ih
  | act hcall _ ih =>
    rw [List.cons_append, List.append_assoc]
    exact .act hcall ih
  | excuse hcall _ ih =>
    rw [List.cons_append, List.append_assoc]
    exact .excuse hcall ih
  | look _ ih => exact .look ih

theorem Tells.append_nil (h : Tells b token t turns) (hu : Tells b token u []) :
    Tells b token (t ++ u) turns := by
  simpa using h.append hu

theorem Tells.call_act (token : Nat) {callback : κ} {call : Call}
    {result : Except Panic (Except Failure Unit)}
    (hcall : (Worker.ofCallback (b.act callback call)).Goes t result) :
    Tells b token (⟨.enter call, ()⟩ :: t) [.act callback call result] := by
  simpa using Tells.act hcall .nil

end Tells

/-- A program that calls nothing, and comes to a value. -/
def Quiet (p : Worker κ α) : Prop :=
  ∀ t x, p.Goes t x → (∀ a ∈ t, IsAside a.1) ∧ ∃ value, x = .ok value

section Quiet

theorem quiet_done (value : α) : Quiet (Prog.done value : Worker κ α) := by
  intro t x h
  obtain ⟨rfl, rfl⟩ := Prog.goes_done h
  exact ⟨by simp, value, rfl⟩

theorem quiet_act (op : Action κ) (hop : IsAside op) : Quiet (Worker.act op) := by
  intro t x h
  obtain ⟨answer, t, rfl, hdone⟩ := Prog.goes_ask h
  obtain ⟨rfl, rfl⟩ := Prog.goes_done hdone
  exact ⟨by simpa using hop, answer, rfl⟩

theorem quiet_ask (op : Request κ) : Quiet (Worker.ask op) := quiet_act _ trivial

theorem Quiet.bind {p : Worker κ α} {f : α → Worker κ β} (hp : Quiet p)
    (hf : ∀ value, Quiet (f value)) : Quiet (p.bind f) := by
  intro t x h
  rcases Prog.goes_bind h with ⟨t₁, t₂, value, rfl, h₁, h₂⟩ | ⟨q, -, h₁⟩
  · obtain ⟨ht₂, hx⟩ := hf value t₂ x h₂
    exact ⟨List.forall_mem_append.mpr ⟨(hp t₁ _ h₁).1, ht₂⟩, hx⟩
  · obtain ⟨-, value, hvalue⟩ := hp t _ h₁
    cases hvalue

theorem tells_of_aside {b : Behaviour κ} {token : Nat} {t : Trail κ}
    (h : ∀ a ∈ t, IsAside a.1) : Tells b token t [] := by
  induction t with
  | nil => exact .nil
  | cons a t ih =>
    obtain ⟨ha, ht⟩ := List.forall_mem_cons.mp h
    exact .aside a.1 a.2 ha (ih ht)

/-- A quiet part in front of another adds nothing to what is told. -/
theorem Quiet.goes_bind {p : Worker κ α} {f : α → Worker κ β} (hp : Quiet p) {t : Trail κ}
    {x : Except Panic β} (h : (p.bind f).Goes t x) (b : Behaviour κ) (token : Nat) :
    ∃ t₁ t₂ value, t = t₁ ++ t₂ ∧ Tells b token t₁ [] ∧ (f value).Goes t₂ x := by
  rcases Prog.goes_bind h with ⟨t₁, t₂, value, rfl, h₁, h₂⟩ | ⟨q, -, h₁⟩
  · exact ⟨t₁, t₂, value, rfl, tells_of_aside (hp t₁ _ h₁).1, h₂⟩
  · obtain ⟨-, value, hvalue⟩ := hp t _ h₁
    cases hvalue

theorem quiet_skipCheck (m : Member κ) (reason : String) : Quiet (skipCheck m reason) :=
  (quiet_ask _).bind fun _ => quiet_ask _

theorem quiet_skipAll (reason : String) (ms : List (Member κ)) : Quiet (skipAll reason ms) := by
  induction ms with
  | nil => exact quiet_done ()
  | cons m ms ih => exact (quiet_skipCheck m reason).bind fun _ => ih

theorem quiet_fail (s : Setting κ) (kind message : String) (current : CheckRef)
    (remaining : List (Member κ)) : Quiet (fail s kind message current remaining) :=
  (quiet_ask _).bind fun _ => (quiet_skipAll _ remaining).bind fun _ => quiet_done _

theorem quiet_finish (r : CheckRef) (c : Check κ) (began : Nat) :
    Quiet (Running.finish r c began) := by
  refine (quiet_act (.finish r) trivial).bind fun _ => ?_
  cases c.timeout with
  | none => exact quiet_done ()
  | some limit =>
    refine (quiet_act .now trivial).bind fun now => ?_
    simp only
    split
    · exact quiet_ask _
    · exact quiet_done ()

end Quiet

section Parts

variable {b : Behaviour κ} {s : Setting κ} {token : Nat} {t : Trail κ}

theorem ofFailure_ne_well (failure : Failure) : Ending.ofFailure failure ≠ .well := by
  unfold Ending.ofFailure
  split <;> exact nofun

theorem goes_text_bind {failure : Failure} {f : String → Worker κ α} {x : Except Panic α}
    (h : (failure.text.bind f).Goes t x) :
    (∃ text, Ending.ofFailure failure = .badly ∧ (f text).Goes t x) ∨
      ∃ panic, Ending.ofFailure failure = .cut panic ∧ x = .error panic ∧ t = [] := by
  unfold Failure.text at h
  unfold Ending.ofFailure
  cases htext : failure.text? with
  | ok text =>
    rw [htext] at h
    exact .inl ⟨text, rfl, h⟩
  | error panic =>
    rw [htext] at h
    obtain ⟨rfl, rfl⟩ := Prog.goes_panic h
    exact .inr ⟨panic, rfl, rfl, rfl⟩

theorem goes_fail {kind message : String} {current : CheckRef} {remaining : List (Member κ)}
    {x : Except Panic (Option GroupError)}
    (h : ((fail s kind message current remaining).bind fun e => .done (some e)).Goes t x)
    (token : Nat) :
    Tells s.behaviour token t [] ∧ Ending.shown Option.isSome x = .badly := by
  obtain ⟨t₁, t₂, e, rfl, hquiet, hdone⟩ :=
    (quiet_fail s kind message current remaining).goes_bind h s.behaviour token
  obtain ⟨rfl, rfl⟩ := Prog.goes_done hdone
  exact ⟨by simpa using hquiet, rfl⟩

theorem goes_write_fail {kind message logged : String} {written current : CheckRef}
    {remaining : List (Member κ)} {x : Except Panic (Option GroupError)}
    (h : ((Worker.ask (.write written .error logged)).bind fun _ =>
      (fail s kind message current remaining).bind fun e => .done (some e)).Goes t x)
    (token : Nat) :
    Tells s.behaviour token t [] ∧ Ending.shown Option.isSome x = .badly := by
  obtain ⟨t₁, t₂, -, rfl, hquiet, hfail⟩ := (quiet_ask _).goes_bind h s.behaviour token
  obtain ⟨hlater, hshown⟩ := goes_fail hfail token
  exact ⟨hquiet.append_nil hlater, hshown⟩

theorem course_runHook {name : String} {hook : Option κ} {call : Call} {current : CheckRef}
    {remaining : List (Member κ)} {x : Except Panic (Option GroupError)}
    (h : (runHook s name hook call current remaining).Goes t x) (token : Nat) :
    ∃ turns, Tells s.behaviour token t turns ∧
      HookTurns .ofFailure hook call turns (.shown Option.isSome x) := by
  cases hook with
  | none =>
    obtain ⟨rfl, rfl⟩ := Prog.goes_done h
    exact ⟨[], .nil, .absent rfl⟩
  | some callback =>
    simp only [runHook, Worker.call, Worker.act, Prog.bind_eq, Prog.bind_assoc, Prog.pure_eq] at h
    obtain ⟨-, t, rfl, hcalled⟩ := Prog.goes_request_bind h
    obtain ⟨t₁, t₂, result, rfl, hcall, hrest⟩ := Prog.goes_guarded_bind hcalled
    have htells := Tells.call_act token hcall
    have hturns : HookTurns .ofFailure (some callback) call
        [.act callback call result] (.ofHook .ofFailure result) := .called rfl result
    match result with
    | .ok (.ok ()) =>
      obtain ⟨rfl, rfl⟩ := Prog.goes_done hrest
      exact ⟨_, by simpa using htells, hturns⟩
    | .ok (.error failure) =>
      rcases goes_text_bind hrest with ⟨text, hbad, hfail⟩ | ⟨panic, hcut, rfl, rfl⟩
      · obtain ⟨hquiet, hshown⟩ := goes_fail hfail token
        refine ⟨_, htells.append_nil hquiet, ?_⟩
        rw [hshown, ← hbad]
        exact hturns
      · refine ⟨_, by simpa using htells, ?_⟩
        rw [Ending.shown, ← hcut]
        exact hturns
    | .error panic =>
      obtain ⟨hquiet, hshown⟩ := goes_fail hrest token
      refine ⟨_, htells.append_nil hquiet, ?_⟩
      rw [hshown]
      exact hturns

theorem course_excusesFrom (token : Nat) {r : CheckRef} {callbacks : List κ} :
    ∀ {index : Nat} {given : List String} {t : Trail κ} {x : Except Panic (List String ⊕ String)},
      (Running.excusesFrom b r index given callbacks).Goes t x →
      ∃ turns reasons panicked, Tells b token t turns ∧
        ExcuseTurns r index callbacks turns reasons panicked ∧
        ((panicked = false ∧ x = .ok (.inl (given ++ reasons))) ∨
          (panicked = true ∧ ∃ reason, x = .ok (.inr reason))) := by
  induction callbacks with
  | nil =>
    intro index given t x h
    obtain ⟨rfl, rfl⟩ := Prog.goes_done h
    exact ⟨[], [], false, .nil, .finished index, .inl ⟨rfl, by rw [List.append_nil]⟩⟩
  | cons callback rest ih =>
    intro index given t x h
    simp only [Running.excusesFrom, Worker.call, Worker.act, Prog.bind_eq, Prog.bind_assoc,
      Prog.pure_eq] at h
    obtain ⟨-, t, rfl, hcalled⟩ := Prog.goes_request_bind h
    obtain ⟨t₁, t₂, answer, rfl, hcall, hrest⟩ := Prog.goes_guarded_bind hcalled
    match answer with
    | .ok (some reason) =>
      obtain ⟨turns, reasons, panicked, htells, hturns, hx⟩ := ih hrest
      exact ⟨_, _, panicked, .excuse hcall htells, .answered callback (some reason) hturns,
        by simpa using hx⟩
    | .ok none =>
      obtain ⟨turns, reasons, panicked, htells, hturns, hx⟩ := ih hrest
      exact ⟨_, _, panicked, .excuse hcall htells, .answered callback none hturns,
        by simpa using hx⟩
    | .error panic =>
      obtain ⟨t₃, t₄, -, rfl, hquiet, hdone⟩ := (quiet_ask _).goes_bind hrest b token
      obtain ⟨rfl, rfl⟩ := Prog.goes_done hdone
      exact ⟨_, [], true, .excuse hcall (by simpa using hquiet),
        .panicked index callback rest panic, .inr ⟨rfl, _, rfl⟩⟩

theorem combineExcuses_isSome (mode : SkipMode) (predicates : Nat) (reasons : List String) :
    (Running.combineExcuses mode predicates reasons).isSome ↔
      reasons ≠ [] ∧ (mode = .all → reasons.length = predicates) := by
  cases reasons with
  | nil => simp [Running.combineExcuses]
  | cons reason rest =>
    cases mode with
    | any => simp [Running.combineExcuses]
    | all =>
      simp only [Running.combineExcuses]
      split <;> simp_all

theorem course_skipDecision {r : CheckRef} {c : Check κ} {x : Except Panic (Option String)}
    (h : (Running.skipDecision b r c).Goes t x) (token : Nat) :
    ∃ turns reasons panicked decision, Tells b token t turns ∧
      ExcuseTurns r 0 c.skips turns reasons panicked ∧ x = .ok decision ∧
      (decision.isSome ↔ Skips c reasons panicked) := by
  simp only [Running.skipDecision, Prog.bind_eq, Prog.pure_eq] at h
  rcases Prog.goes_bind h with ⟨t₁, t₂, answer, rfl, h₁, h₂⟩ | ⟨q, -, h₁⟩
  · obtain ⟨turns, reasons, panicked, htells, hturns, hx⟩ := course_excusesFrom token h₁
    rcases hx with ⟨rfl, hx⟩ | ⟨rfl, reason, hx⟩ <;> cases hx
    · obtain ⟨rfl, rfl⟩ := Prog.goes_done h₂
      refine ⟨turns, reasons, false, _, by simpa using htells, hturns, rfl, ?_⟩
      simp [Skips, combineExcuses_isSome]
    · obtain ⟨rfl, rfl⟩ := Prog.goes_done h₂
      exact ⟨turns, reasons, true, _, by simpa using htells, hturns, rfl, by simp [Skips]⟩
  · obtain ⟨turns, reasons, panicked, htells, hturns, hx⟩ := course_excusesFrom token h₁
    rcases hx with ⟨-, hx⟩ | ⟨-, reason, hx⟩ <;> cases hx

/-- How a run of a check ends, for the group that asks for the text of its fault. -/
def Ending.ofRun : Except Panic (Except RunFault Unit) → Ending
  | .ok (.ok ()) => .well
  | .ok (.error (.inPhase _ _ cause)) => .ofFailure cause
  | .ok (.error _) => .badly
  | .error _ => .badly

theorem ofRun_error_ne_well (fault : RunFault) : Ending.ofRun (.ok (.error fault)) ≠ .well := by
  cases fault with
  | inPhase id phase cause => exact ofFailure_ne_well cause
  | _ => exact nofun

theorem course_runPhase {r : CheckRef} {id : String} {phase : Phase} {callback : κ}
    {x : Except Panic (Except RunFault Unit)}
    (h : (Running.runPhase b r id phase callback).Goes t x) (token : Nat) :
    ∃ result, Tells b token t [.act callback (phase.call r) result] ∧
      Ending.ofPhase .ofFailure result = Ending.ofRun x ∧
      (x = .ok (.ok ()) → result = .ok (.ok ())) := by
  simp only [Running.runPhase, Worker.act, Prog.bind_eq, Prog.pure_eq] at h
  obtain ⟨-, t, rfl, hcalled⟩ := Prog.goes_request_bind h
  rcases Prog.goes_bind hcalled with ⟨t₁, t₂, result, rfl, hcall, hrest⟩ | ⟨panic, rfl, hcall⟩
  · match result with
    | .ok () =>
      obtain ⟨rfl, rfl⟩ := Prog.goes_done hrest
      exact ⟨_, by simpa using Tells.call_act token hcall, rfl, fun _ => rfl⟩
    | .error failure =>
      obtain ⟨rfl, rfl⟩ := Prog.goes_done hrest
      refine ⟨_, by simpa using Tells.call_act token hcall, ?_, nofun⟩
      cases habort : failure.abortMessage? <;>
        simp [Ending.ofPhase, Ending.ofRun, RunFault.ofFailure, habort]
  · exact ⟨_, Tells.call_act token hcall, rfl, nofun⟩

theorem course_runPhases (token : Nat) {r : CheckRef} {id : String} {steps : List (Phase × κ)} :
    ∀ {t : Trail κ} {x : Except Panic (Except RunFault Unit)},
      (Running.runPhases b r id steps).Goes t x →
      ∃ turns, Tells b token t turns ∧ PhaseTurns .ofFailure r steps turns (.ofRun x) := by
  induction steps with
  | nil =>
    intro t x h
    obtain ⟨rfl, rfl⟩ := Prog.goes_done h
    exact ⟨[], .nil, .finished⟩
  | cons step rest ih =>
    intro t x h
    obtain ⟨phase, callback⟩ := step
    simp only [Running.runPhases, Prog.bind_eq, Prog.pure_eq] at h
    rcases Prog.goes_bind h with ⟨t₁, t₂, y, rfl, h₁, h₂⟩ | ⟨panic, rfl, h₁⟩
    · obtain ⟨result, htells, hending, hwell⟩ := course_runPhase h₁ token
      match y with
      | .ok () =>
        obtain rfl := hwell rfl
        obtain ⟨turns, hlater, hturns⟩ := ih h₂
        exact ⟨_, htells.append hlater, .next phase callback hturns⟩
      | .error fault =>
        obtain ⟨rfl, rfl⟩ := Prog.goes_done h₂
        refine ⟨_, by simpa using htells, ?_⟩
        rw [← hending]
        refine .failed phase callback rest result ?_
        rw [hending]
        exact ofRun_error_ne_well fault
    · obtain ⟨result, htells, hending, -⟩ := course_runPhase h₁ token
      refine ⟨_, htells, ?_⟩
      rw [← hending]
      refine .failed phase callback rest result ?_
      rw [hending]
      exact nofun

theorem course_checkRun {m : Member κ} {x : Except Panic (Except RunFault Unit)}
    (h : (Running.run b m.1 m.2).Goes t x) (token : Nat) :
    ∃ turns, Tells b token t turns ∧ BodyTurns .ofFailure m turns (.ofRun x) := by
  unfold Running.run at h
  cases hfault : m.2.fault with
  | some fault =>
    rw [hfault] at h
    obtain ⟨rfl, rfl⟩ := Prog.goes_done h
    exact ⟨[], .nil, .unfit (.inl (by rw [hfault]; rfl))⟩
  | none =>
    cases hbody : m.2.body with
    | none =>
      rw [hfault, hbody] at h
      obtain ⟨rfl, rfl⟩ := Prog.goes_done h
      exact ⟨[], .nil, .unfit (.inr hbody)⟩
    | some body =>
      simp only [hfault, hbody, Worker.act, Prog.bind_eq, Prog.pure_eq] at h
      obtain ⟨began, t, rfl, hbegun⟩ := Prog.goes_request_bind h
      obtain ⟨t₁, t₂, y, rfl, hphases, hrest⟩ := Prog.goes_guarded_bind hbegun
      obtain ⟨turns, htells, hturns⟩ := course_runPhases token hphases
      obtain ⟨t₃, t₄, -, rfl, hquiet, hlast⟩ :=
        (quiet_finish m.1 m.2 began).goes_bind hrest b token
      have hx : t₄ = [] ∧ x = y := by
        cases y with
        | ok result => exact Prog.goes_done hlast
        | error panic => exact Prog.goes_panic hlast
      obtain ⟨rfl, rfl⟩ := hx
      refine ⟨turns, .aside _ _ trivial (htells.append_nil (by simpa using hquiet)), ?_⟩
      refine .ran hfault hbody ?_
      rw [Running.phases, List.append_assoc] at hturns
      exact hturns

theorem goes_faultText_bind {fault : RunFault} {f : String → Worker κ α} {x : Except Panic α}
    (h : (fault.text.bind f).Goes t x) :
    (∃ text, Ending.ofRun (.ok (.error fault)) = .badly ∧ (f text).Goes t x) ∨
      ∃ panic, Ending.ofRun (.ok (.error fault)) = .cut panic ∧ x = .error panic ∧ t = [] := by
  cases fault with
  | inPhase id phase cause =>
    rw [RunFault.text, Prog.bind_assoc] at h
    rcases goes_text_bind h with ⟨text, hbad, hrest⟩ | hcut
    · exact .inl ⟨_, hbad, hrest⟩
    · exact .inr hcut
  | _ => exact .inl ⟨_, rfl, h⟩

theorem course_runCheck {m : Member κ} {remaining : List (Member κ)}
    {x : Except Panic (Option GroupError)} (h : (runCheck s m remaining).Goes t x) (token : Nat) :
    ∃ turns, Tells s.behaviour token t turns ∧
      BodyTurns .ofFailure m turns (.shown Option.isSome x) := by
  simp only [runCheck, Prog.bind_eq, Prog.pure_eq] at h
  obtain ⟨t₁, t₂, y, rfl, hrun, hrest⟩ := Prog.goes_guarded_bind h
  obtain ⟨turns, htells, hturns⟩ := course_checkRun hrun token
  match y with
  | .ok (.ok ()) =>
    obtain ⟨rfl, rfl⟩ := Prog.goes_done hrest
    exact ⟨turns, by simpa using htells, hturns⟩
  | .ok (.error fault) =>
    cases fault with
    | aborted message =>
      obtain ⟨rfl, rfl⟩ := Prog.goes_done hrest
      exact ⟨turns, by simpa using htells, hturns⟩
    | _ =>
      rcases goes_faultText_bind hrest with ⟨text, hbad, hfail⟩ | ⟨panic, hcut, rfl, rfl⟩
      · obtain ⟨hquiet, hshown⟩ := goes_write_fail hfail token
        exact ⟨turns, htells.append_nil hquiet, by rw [hshown, ← hbad]; exact hturns⟩
      · exact ⟨turns, by simpa using htells, by rw [Ending.shown, ← hcut]; exact hturns⟩
  | .error panic =>
    obtain ⟨hquiet, hshown⟩ := goes_write_fail hrest token
    exact ⟨turns, htells.append_nil hquiet, by rw [hshown]; exact hturns⟩

end Parts

end Conformance.Group
