import Conformance.Proofs.Check.TimeLimit
import Conformance.Proofs.Group.Headway
import Conformance.Proofs.Group.Labelling
import Conformance.Proofs.Group.Policy

/-!
Runs that are cut off, by a stop token that is found set before a check or by a check that returns a
request to abort. The cursor stays at this check, no callback is called for the checks after it, and
the checks before it keep what their own iterations have left on them.
-/
namespace Conformance.Group

variable {κ α : Type}

section Requests

/-- The phases, called one after the other, come to one that returns a request to abort, in whatever
contexts it is wrapped. -/
inductive PhasesAsk (b : Behaviour κ) (r : CheckRef) :
    List (Phase × κ) → Engine κ → Engine κ → Prop
  | here {phase : Phase} {callback : κ} {rest : List (Phase × κ)} {e e' : Engine κ}
      {failure : Failure} {message : String}
      (hcall : (b.act callback (phase.call r)).exec Request.apply
        (e.happen (.called (phase.call r))) = (.ok (.error failure), e'))
      (hlayer : .abortRequest message ∈ failure.layers) :
      PhasesAsk b r ((phase, callback) :: rest) e e'
  | later {phase : Phase} {callback : κ} {rest : List (Phase × κ)} {e e₁ e' : Engine κ}
      (hcall : (b.act callback (phase.call r)).exec Request.apply
        (e.happen (.called (phase.call r))) = (.ok (.ok ()), e₁))
      (h : PhasesAsk b r rest e₁ e') : PhasesAsk b r ((phase, callback) :: rest) e e'

theorem abortMessage?_of_mem {failure : Failure} {message : String}
    (h : .abortRequest message ∈ failure.layers) : ∃ found, failure.abortMessage? = some found := by
  refine Option.isSome_iff_exists.mp (List.findSome?_isSome_iff.mpr ⟨_, h, ?_⟩)
  rfl

theorem PhasesAsk.exec {b : Behaviour κ} {r : CheckRef} {steps : List (Phase × κ)}
    {e e' : Engine κ} (h : PhasesAsk b r steps e e') (id : String) :
    ∃ message, (Running.runPhases b r id steps).exec Action.apply e =
      (.ok (.error (.aborted message)), e') := by
  have hphase {phase : Phase} {callback : κ} {e e₁ : Engine κ} {result : Except Failure Unit}
      (hcall : (b.act callback (phase.call r)).exec Request.apply
        (e.happen (.called (phase.call r))) = (.ok result, e₁)) :
      (Worker.ofCallback (b.act callback (phase.call r))).exec Action.apply
        (e.happen (.called (phase.call r))) = (.ok result, e₁) := by
    rw [exec_ofCallback, hcall]
  induction h with
  | @here phase callback rest e e' failure message hcall hlayer =>
    obtain ⟨found, hfound⟩ := abortMessage?_of_mem hlayer
    refine ⟨found, ?_⟩
    have hfault : RunFault.ofFailure id phase failure = .aborted found := by
      simp only [RunFault.ofFailure, hfound]
    have hfirst : (Running.runPhase b r id phase callback).exec Action.apply e =
        (.ok (.error (.aborted found)), e') := by
      rw [← hfault]
      exact Prog.exec_bind_of_ok (hphase hcall) _
    exact Prog.exec_bind_of_ok hfirst _
  | @later phase callback rest e e₁ e' hcall _ ih =>
    obtain ⟨found, hrest⟩ := ih
    have hfirst : (Running.runPhase b r id phase callback).exec Action.apply e =
        (.ok (.ok ()), e₁) := Prog.exec_bind_of_ok (hphase hcall) _
    exact ⟨found, (Prog.exec_bind_of_ok hfirst _).trans hrest⟩

/-- The check is not skipped, and one of its phases returns a request to abort, which the second
engine shows. -/
inductive CheckAsks (s : Setting κ) (m : Member κ) (e e' : Engine κ) : Prop
  | mk {body : κ} {e₁ : Engine κ} (hfault : m.2.fault = none) (hbody : m.2.body = some body)
      (hdecision : (Running.skipDecision s.behaviour m.1 m.2).exec Action.apply e = (.ok none, e₁))
      (hphases : PhasesAsk s.behaviour m.1 (Running.phases m.2 body)
        ((Action.begin m.1).apply ((grantAbort s m).exec Action.apply e₁).2).2 e')

/-- Stamping the times of a check leaves all results as they are. -/
theorem result?_of_closedBy {r : CheckRef} {e e' : Engine κ}
    (h : Running.ClosedBy r ((Action.finish r).apply e).2 e') (r' : CheckRef) :
    e'.result? r' = e.result? r' := by
  have hstamped : ((Action.finish r).apply e).2.result? r' = e.result? r' := by
    refine e.result?_modifyCheck r ?_ r'
    intro c
    rfl
  cases h with
  | unlimited => exact hstamped
  | inTime => exact hstamped
  | overrun message => exact (Engine.result?_log _ _ _ _ r').trans hstamped

theorem exec_grantAbort (s : Setting κ) (m : Member κ) (e : Engine κ) :
    (grantAbort s m).exec Action.apply e = (.ok (), ((grantAbort s m).exec Action.apply e).2) := by
  unfold grantAbort
  cases s.handle <;> rfl

/-- Nothing but the times has changed when the request has been passed on. -/
theorem CheckAsks.exec {s : Setting κ} {m : Member κ} {e cut : Engine κ}
    (h : CheckAsks s m e cut) :
    ∃ message ran, (tryCheck s m).exec Action.apply e = (.ok (some (.abort message)), ran) ∧
      ∀ r, ran.result? r = cut.result? r := by
  obtain @⟨body, e₁, hfault, hbody, hdecision, hphases⟩ := h
  obtain ⟨message, hasked⟩ := hphases.exec m.2.id
  obtain ⟨ran, hrun, hclosed⟩ := Running.exec_run (b := s.behaviour) (r := m.1) hfault hbody
    ((grantAbort s m).exec Action.apply e₁).2
  rw [hasked] at hrun hclosed
  have hpassed : (Running.run s.behaviour m.1 m.2).guarded.exec Action.apply
      ((grantAbort s m).exec Action.apply e₁).2 = (.ok (.ok (.error (.aborted message))), ran) := by
    rw [Prog.exec_guarded, hrun]
  refine ⟨message, ran, ?_, result?_of_closedBy hclosed⟩
  exact (Prog.exec_bind_of_ok hdecision _).trans
    ((Prog.exec_bind_of_ok (exec_grantAbort s m e₁) _).trans (Prog.exec_bind_of_ok hpassed _))

end Requests

section Cutting

/-- How a run is cut off at a check after some rounds, from the engine on which the selected checks
are run: its stop token is found set, or one of its phases returns a request to abort. The last
engine is the one of that moment. -/
inductive CutOff (s : Setting κ) (first : Member κ) (rest : List (Member κ)) (e : Engine κ) :
    List (Member κ × Engine κ) → Member κ → List (Member κ) → Bool → Engine κ → Prop
  | stopped {failed : Nat} {done : List (Member κ × Engine κ)} {m : Member κ}
      {later : List (Member κ)} {ready reached : Engine κ}
      (hready : (runHook s "beforeAll" s.hooks.beforeAll
        (.beforeAll s.group ((first :: rest).map Prod.fst)) first.1 (first :: rest)).exec
          Action.apply e = (.ok none, ready))
      (hrounds : Rounds s 0 0 (first :: rest)
        (ready.modifyGroup s.group fun group => { group with cursor := some 0 }) done failed
        (m :: later) reached)
      (hstop : reached.tokenSet s.token = true) :
      CutOff s first rest e done m later false reached
  | asked {failed : Nat} {done : List (Member κ × Engine κ)} {m : Member κ}
      {later : List (Member κ)} {ready reached opened cut : Engine κ}
      (hready : (runHook s "beforeAll" s.hooks.beforeAll
        (.beforeAll s.group ((first :: rest).map Prod.fst)) first.1 (first :: rest)).exec
          Action.apply e = (.ok none, ready))
      (hrounds : Rounds s 0 0 (first :: rest)
        (ready.modifyGroup s.group fun group => { group with cursor := some 0 }) done failed
        (m :: later) reached)
      (hgoes : reached.tokenSet s.token = false)
      (hopened : (runHook s "beforeEach" s.hooks.beforeEach (.beforeEach m.1) m.1 later).exec
        Action.apply reached = (.ok none, opened))
      (hasks : CheckAsks s m opened cut) : CutOff s first rest e done m later true cut

variable {s : Setting κ} {first m : Member κ} {rest later : List (Member κ)}
  {done : List (Member κ × Engine κ)} {asked : Bool} {e reached opened cut : Engine κ}

/-- The run up to the hook after all checks is one of its rounds and what is left to do then. -/
theorem exec_upToLast {failed : Nat} {ready : Engine κ} {remaining : List (Member κ)}
    (hready : (runHook s "beforeAll" s.hooks.beforeAll
      (.beforeAll s.group ((first :: rest).map Prod.fst)) first.1 (first :: rest)).exec
        Action.apply e = (.ok none, ready))
    (hrounds : Rounds s 0 0 (first :: rest)
      (ready.modifyGroup s.group fun group => { group with cursor := some 0 }) done failed
      remaining reached) :
    (upToLast s first rest).exec Action.apply e =
      (runFrom s done.length failed remaining).exec Action.apply reached := by
  have hloop := hrounds.exec
  rw [Nat.zero_add] at hloop
  rw [← hloop]
  exact Prog.exec_bind_of_ok hready _

theorem exec_runFrom_stopped (hstop : reached.tokenSet s.token = true) (index failed : Nat) :
    (runFrom s index failed (m :: later)).exec Action.apply reached =
      (.ok ⟨[], failed⟩, reached) := by
  have hlook : (Worker.act (.stopped s.token)).exec Action.apply reached = (.ok true, reached) := by
    rw [← hstop]
    rfl
  rw [runFrom_cons]
  exact Prog.exec_bind_of_ok hlook _

/-- A request to abort is passed on as it is. All that is left to do in its iteration is the hook
after the check. -/
theorem exec_iteration_asked
    (hopened : (runHook s "beforeEach" s.hooks.beforeEach (.beforeEach m.1) m.1 later).exec
      Action.apply reached = (.ok none, opened)) (hasks : CheckAsks s m opened cut) :
    ∃ message ran, (∀ r, ran.result? r = cut.result? r) ∧
      (iteration s m later).exec Action.apply reached =
        ((runHook s "afterEach" s.hooks.afterEach (.afterEach m.1) m.1 later).bind fun after =>
          .done (.aborted message :: after.toList)).exec Action.apply ran := by
  obtain ⟨message, ran, hcheck, hsame⟩ := hasks.exec
  refine ⟨message, ran, hsame, ?_⟩
  have hbody : (runUnlessExcused s m later).exec Action.apply opened =
      (.ok (some (.aborted message)), ran) := by
    rw [runUnlessExcused_eq]
    exact Prog.exec_bind_of_ok hcheck _
  exact exec_iteration_failing hopened hbody

/-- The rounds end with the iteration whose check has asked for an abort. -/
theorem exec_runFrom_asked (hgoes : reached.tokenSet s.token = false)
    (hopened : (runHook s "beforeEach" s.hooks.beforeEach (.beforeEach m.1) m.1 later).exec
      Action.apply reached = (.ok none, opened)) (hasks : CheckAsks s m opened cut)
    (index failed : Nat) :
    (runFrom s index failed (m :: later)).exec Action.apply reached =
      ((iteration s m later).bind fun errors => .done ⟨errors, failed⟩).exec
        Action.apply reached := by
  obtain ⟨message, ran, -, hround⟩ := exec_iteration_asked hopened hasks
  exact exec_runFrom_failing hgoes hround index failed

/-- Where a run is cut off, its rounds are over after the iteration in hand, if one has begun. -/
theorem CutOff.exec (h : CutOff s first rest e done m later asked cut) :
    ∃ ready failed reached, (runHook s "beforeAll" s.hooks.beforeAll
        (.beforeAll s.group ((first :: rest).map Prod.fst)) first.1 (first :: rest)).exec
          Action.apply e = (.ok none, ready) ∧
      Rounds s 0 0 (first :: rest)
        (ready.modifyGroup s.group fun group => { group with cursor := some 0 }) done failed
        (m :: later) reached ∧
      ((upToLast s first rest).exec Action.apply e = (.ok ⟨[], failed⟩, reached) ∨
        (upToLast s first rest).exec Action.apply e =
          ((iteration s m later).bind fun errors => .done ⟨errors, failed⟩).exec
            Action.apply reached) := by
  cases h with
  | stopped hready hrounds hstop =>
    refine ⟨_, _, _, hready, hrounds, .inl ?_⟩
    rw [exec_upToLast hready hrounds, exec_runFrom_stopped hstop]
  | asked hready hrounds hgoes hopened hasks =>
    refine ⟨_, _, _, hready, hrounds, .inr ?_⟩
    rw [exec_upToLast hready hrounds, exec_runFrom_asked hgoes hopened hasks]

theorem CutOff.members (h : CutOff s first rest e done m later asked cut) :
    first :: rest = done.map Prod.fst ++ m :: later := by
  obtain ⟨ready, failed, reached, -, hrounds, -⟩ := h.exec
  exact hrounds.members

theorem Rounds.cursorOf {index failed total : Nat} {ms : List (Member κ)}
    (h : Rounds s index failed ms e done total rest reached) (hg : (e.group? s.group).isSome)
    (hcursor : e.cursorOf s.group = some index) :
    (reached.group? s.group).isSome ∧ reached.cursorOf s.group = some (index + done.length) := by
  induction h with
  | stay => exact ⟨hg, hcursor⟩
  | @round index failed total m ms rest done e e₁ e' hgoes hwell hnext ih =>
    have hthere : (e₁.group? s.group).isSome := by
      have hsame := isSome_group?_exec (iteration s m ms) e s.group
      rw [hwell] at hsame
      exact hsame.trans hg
    have hmoved := (Action.setCursor s.group (some (index + 1))).cursorOf_apply hthere
    rw [List.length_cons, ← Nat.add_assoc, Nat.add_right_comm]
    exact ih ((Action.isSome_group?_apply (.setCursor s.group _) e₁ s.group).trans hthere)
      (hmoved.trans (if_pos rfl))

/-- The cursor stays at the check at which the run is cut off. -/
theorem CutOff.cursorOf (h : CutOff s first rest e done m later asked cut)
    (hg : (e.group? s.group).isSome) :
    (((upToLast s first rest).bind (closing s first rest)).exec Action.apply e).2.cursorOf
      s.group = some done.length := by
  obtain ⟨ready, failed, reached, hready, hrounds, hlast⟩ := h.exec
  have hthere : (ready.group? s.group).isSome := by
    have hsame := isSome_group?_exec (runHook s "beforeAll" s.hooks.beforeAll
      (.beforeAll s.group ((first :: rest).map Prod.fst)) first.1 (first :: rest)) e s.group
    rw [hready] at hsame
    exact hsame.trans hg
  obtain ⟨hstill, hcursor⟩ := hrounds.cursorOf
    ((Action.isSome_group?_apply (.setCursor s.group (some 0)) ready s.group).trans hthere)
    (((Action.setCursor s.group (some 0)).cursorOf_apply hthere).trans (if_pos rfl))
  rw [Nat.zero_add] at hcursor
  rw [cursorOf_exec_bind _ (within_closing s first rest) hg]
  rcases hlast with hlast | hlast
  · rw [hlast, hcursor]
  · have hround : ((iteration s m later).bind fun errors =>
        (.done ⟨errors, failed⟩ : Worker κ Outcome)).Only (IsWithin (some m.1)) :=
      (within_iteration s m later).bind fun _ => trivial
    rw [hlast, cursorOf_exec_of_within hround hstill, hcursor]

end Cutting

section Past

variable {s : Setting κ} {m : Member κ} {later : List (Member κ)} {r : CheckRef}

theorem has_react_past {current : CheckRef} {remaining : List (Member κ)} (hr : r ≠ current)
    (hout : r ∉ remaining.map Prod.fst) (trouble : Option Trouble) :
    (react s current remaining trouble).Has Action.apply (Engine.Keeps r) Prog.Always := by
  match trouble with
  | none => exact Prog.has_done (Engine.keeps_isEffect r) _ _
  | some (.abort message) => exact Prog.has_done (Engine.keeps_isEffect r) _ _
  | some (.failure kind message) =>
    intro e _ v hv
    rw [react, Prog.exec_bind_of_ok (exec_fail s kind message current remaining e)]
    exact (standing?_failed s kind message remaining e hr).trans ((if_neg hout).trans hv)

/-- An iteration changes no check that came before its own, however it ends. -/
theorem IsEachLocal.has_iteration_past (hb : IsEachLocal s.behaviour) (hr : r ≠ m.1)
    (hout : r ∉ later.map Prod.fst) :
    (iteration s m later).Has Action.apply (Engine.Keeps r) Prog.Always := by
  have hkeeps := Engine.keeps_isEffect (κ := κ) r
  have hhook (name : String) (hook : Option κ) {call : Call} (hcall : call.check? = some m.1) :
      (runHook s name hook call m.1 later).Has Action.apply (Engine.Keeps r) Prog.Always := by
    rw [runHook_eq]
    exact (hb.has_tryHook hr name hook hcall).bind_always hkeeps (has_react_past hr hout)
  have hlast {errors : Option GroupError → List GroupError} :
      ((runHook s "afterEach" s.hooks.afterEach (.afterEach m.1) m.1 later).bind fun after =>
        (.done (errors after) : Worker κ (List GroupError))).Has Action.apply (Engine.Keeps r)
          Prog.Always :=
    (hhook _ _ rfl).bind_always hkeeps fun _ => Prog.has_done hkeeps _ _
  refine (hhook _ _ rfl).bind_always hkeeps ?_
  intro before
  cases before with
  | some error => exact hlast
  | none =>
    have hbody : (runUnlessExcused s m later).Has Action.apply (Engine.Keeps r) Prog.Always := by
      rw [runUnlessExcused_eq]
      exact (hb.has_tryCheck hr).bind_always hkeeps (has_react_past hr hout)
    exact hbody.bind_always hkeeps fun _ => hlast

variable {first : Member κ} {rest : List (Member κ)} {done : List (Member κ × Engine κ)}
  {asked : Bool} {e cut : Engine κ}

/-- When the hook after all checks is called, the checks before the one at which the run is cut off
are as their own iterations left them. -/
theorem CutOff.keeps_done (h : CutOff s first rest e done m later asked cut)
    (hb : IsEachLocal s.behaviour) (hnodup : ((first :: rest).map Prod.fst).Nodup) :
    ∀ p ∈ done, Engine.Keeps p.1.1 p.2 ((upToLast s first rest).exec Action.apply e).2 := by
  obtain ⟨ready, failed, reached, -, hrounds, hlast⟩ := h.exec
  have hdone := hrounds.keeps_done hb hnodup
  intro p hp
  rcases hlast with hlast | hlast
  · rw [hlast]
    exact hdone p hp
  · rw [h.members, List.map_append, List.map_cons, List.nodup_append] at hnodup
    obtain ⟨-, -, hapart⟩ := hnodup
    have hmem : p.1.1 ∈ (done.map Prod.fst).map Prod.fst :=
      List.mem_map_of_mem (List.mem_map_of_mem hp)
    have hne : p.1.1 ≠ m.1 := hapart _ hmem _ List.mem_cons_self
    have hout : p.1.1 ∉ later.map Prod.fst := by
      intro hlater
      exact hapart _ hmem _ (List.mem_cons_of_mem _ hlater) rfl
    have hkeeps := Engine.keeps_isEffect (κ := κ) p.1.1
    have hround : ((iteration s m later).bind fun errors =>
        (.done ⟨errors, failed⟩ : Worker κ Outcome)).Has Action.apply (Engine.Keeps p.1.1)
          Prog.Always :=
      (hb.has_iteration_past hne hout).bind_always hkeeps fun _ => Prog.has_done hkeeps _ _
    rw [hlast]
    exact hkeeps.trans (hdone p hp) (hround reached trivial)

theorem CutOff.exists_standing (h : CutOff s first rest e done m later asked cut)
    (hthere : ∀ n ∈ first :: rest, ∃ v, e.standing? n.1 = some v) :
    ∀ p ∈ done, ∃ v, p.2.standing? p.1.1 = some v := by
  obtain ⟨ready, failed, reached, hready, hrounds, -⟩ := h.exec
  refine hrounds.exists_standing ?_
  intro n hn
  obtain ⟨v, hv⟩ := hthere n hn
  obtain ⟨w, hw⟩ := exists_standing_exec (runHook s "beforeAll" s.hooks.beforeAll
    (.beforeAll s.group ((first :: rest).map Prod.fst)) first.1 (first :: rest)) hv
  rw [hready] at hw
  exact ⟨w, keeps_setCursor _ _ _ _ w hw⟩

end Past

section Calls

theorem isPrefix_checks_of_mem_trail {p : Worker κ α} {e : Engine κ} {g : Nat}
    {checks : List (Check κ)} (h : ⟨.request (.checks g), checks⟩ ∈ p.trail Action.apply e) :
    checks <+: ((p.exec Action.apply e).2.checksOf g).map Registered.check := by
  induction p generalizing e with
  | done value => cases h
  | panic q => cases h
  | ask op next ih =>
    rcases List.mem_cons.mp h with hfirst | hlater
    · cases hfirst
      exact isPrefix_checks (grows_worker (p := next _) rfl) g
    · exact ih _ hlater

variable {b : Behaviour κ} {g : Nat} {filter : Label.Filter} {token : Nat}
  {handle : Option AbortHandle} {e : Engine κ}

/-- A group run calls nothing for a check beyond the place at which it leaves the cursor. -/
theorem called_up_to_cursor (hg : (e.group? g).isSome) {a : Prog.Exchange (@Action.Resp κ)}
    (ha : a ∈ (run b g filter token handle).trail Action.apply e) {r : CheckRef}
    (hr : a.1.check? = some r) :
    ∃ i m, (selected filter (membersOf
        ((run b g filter token handle).exec Action.apply e).2 g))[i]? = some m ∧ m.1 = r ∧
      i < ((((run b g filter token handle).exec Action.apply e).2.cursorOf g).elim 0 (· + 1)) := by
  obtain ⟨q, hreaches⟩ :=
    (Prog.goes_trail Action.apply (run b g filter token handle) e).exists_reaches
  have hway := headway_of_reaches hreaches
  obtain ⟨checks, i, m, hread, hm, hsame, hi⟩ := hway.check ha hr
  refine ⟨i, m, selected_of_isPrefix (isPrefix_checks_of_mem_trail hread) hm, hsame, ?_⟩
  rw [cursorOf_exec _ hg]
  exact Nat.lt_of_lt_of_le hi (hway.clearances_le _)

end Calls

end Conformance.Group
