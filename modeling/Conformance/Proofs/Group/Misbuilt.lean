import Conformance.Proofs.Check.Building
import Conformance.Proofs.Group.Calls
import Conformance.Proofs.Group.CutOff

/-!
Checks that were built with a fault, as a group runs them. The functions of such a check are never
called. Its predicates are asked like those of any other check, and if they let it run, its fault
is the error that it is judged with and that the group fails with.
-/
namespace Conformance.Group

variable {κ : Type}

section Calls

/-- No phase of the check is called. -/
def SparesPhases (r : CheckRef) (turns : List (Turn κ)) : Prop :=
  ∀ call ∈ turns.filterMap Turn.call?, ∀ phase : Phase, call ≠ phase.call r

variable {effect : Failure → Ending} {r : CheckRef} {hooks : Hooks κ} {m : Member κ}
  {turns others : List (Turn κ)} {ending : Ending}

theorem SparesPhases.append (h : SparesPhases r turns) (h' : SparesPhases r others) :
    SparesPhases r (turns ++ others) := by
  intro call hcall
  rw [List.filterMap_append] at hcall
  rcases List.mem_append.mp hcall with hcall | hcall
  · exact h call hcall
  · exact h' call hcall

theorem sparesPhases_nil (r : CheckRef) : SparesPhases r ([] : List (Turn κ)) := nofun

theorem SparesPhases.look (h : SparesPhases r turns) (stopped : Bool) :
    SparesPhases r (.look stopped :: turns) := h

theorem HookTurns.sparesPhases {hook : Option κ} {call : Call}
    (h : HookTurns effect hook call turns ending) (hcall : ∀ phase : Phase, call ≠ phase.call r) :
    SparesPhases r turns := by
  cases h with
  | absent => exact sparesPhases_nil r
  | called => exact List.forall_mem_singleton.mpr hcall

theorem ExcuseTurns.sparesPhases {r' : CheckRef} {index : Nat} {callbacks : List κ}
    {reasons : List String} {panicked : Bool}
    (h : ExcuseTurns r' index callbacks turns reasons panicked) : SparesPhases r turns := by
  have hskip (index : Nat) (phase : Phase) : Call.skip r' index ≠ phase.call r := by
    cases phase <;> exact nofun
  induction h with
  | finished => exact sparesPhases_nil r
  | panicked index => exact List.forall_mem_singleton.mpr (hskip index)
  | @answered index _ _ _ _ _ _ _ ih => exact List.forall_mem_cons.mpr ⟨hskip index, ih⟩

theorem PhaseTurns.sparesPhases {steps : List (Phase × κ)}
    (h : PhaseTurns effect m.1 steps turns ending) (hr : m.1 ≠ r) : SparesPhases r turns := by
  have hcheck (phase : Phase) (r : CheckRef) : (phase.call r).check? = some r := by
    cases phase <;> rfl
  have hphase (phase phase' : Phase) : phase.call m.1 ≠ phase'.call r := by
    intro hcall
    refine hr (Option.some.inj ?_)
    rw [← hcheck phase m.1, hcall, hcheck]
  induction h with
  | finished => exact sparesPhases_nil r
  | failed phase => exact List.forall_mem_singleton.mpr (hphase phase)
  | next phase _ _ ih => exact List.forall_mem_cons.mpr ⟨hphase phase, ih⟩

/-- A member is run only if it was built without a fault. -/
theorem BodyTurns.sparesPhases (h : BodyTurns effect m turns ending)
    (hm : m.1 = r → m.2.fault.isSome) : SparesPhases r turns := by
  cases h with
  | unfit => exact sparesPhases_nil r
  | ran hfault _ hphases =>
    refine hphases.sparesPhases ?_
    intro hr
    have hsome := hm hr
    rw [hfault] at hsome
    cases hsome

theorem CheckTurns.sparesPhases (h : CheckTurns effect hooks m turns ending)
    (hm : m.1 = r → m.2.fault.isSome) : SparesPhases r turns := by
  have hbefore (phase : Phase) : Call.beforeEach m.1 ≠ phase.call r := by
    cases phase <;> exact nofun
  cases h with
  | unready h => exact h.sparesPhases hbefore
  | excused h hasked => exact (h.sparesPhases hbefore).append hasked.sparesPhases
  | ran h hasked _ hbody =>
    exact (h.sparesPhases hbefore).append (hasked.sparesPhases.append (hbody.sparesPhases hm))

theorem IterationTurns.sparesPhases (h : IterationTurns effect hooks m turns ending)
    (hm : m.1 = r → m.2.fault.isSome) : SparesPhases r turns := by
  cases h with
  | closed h _ hafter =>
    refine (h.sparesPhases hm).append (hafter.sparesPhases ?_)
    intro phase
    cases phase <;> exact nofun
  | cut h => exact h.sparesPhases hm

theorem LoopTurns.sparesPhases {ms : List (Member κ)} (h : LoopTurns effect hooks ms turns ending)
    (hms : ∀ m ∈ ms, m.1 = r → m.2.fault.isSome) : SparesPhases r turns := by
  induction h with
  | finished => exact sparesPhases_nil r
  | stopped => exact (sparesPhases_nil r).look true
  | failed rest h =>
    exact (h.sparesPhases (hms _ List.mem_cons_self)).look false
  | next h _ ih =>
    obtain ⟨hm, hrest⟩ := List.forall_mem_cons.mp hms
    exact ((h.sparesPhases hm).append (ih hrest)).look false

theorem InnerTurns.sparesPhases {g : Nat} {ms : List (Member κ)}
    (h : InnerTurns effect g hooks ms turns ending)
    (hms : ∀ m ∈ ms, m.1 = r → m.2.fault.isSome) : SparesPhases r turns := by
  have hbefore (refs : List CheckRef) (phase : Phase) : Call.beforeAll g refs ≠ phase.call r := by
    cases phase <;> exact nofun
  cases h with
  | unready h => exact h.sparesPhases (hbefore _)
  | looped h hloop => exact (h.sparesPhases (hbefore _)).append (hloop.sparesPhases hms)

theorem RunTurns.sparesPhases {g : Nat} {ms : List (Member κ)}
    (h : RunTurns effect g hooks ms turns ending)
    (hms : ∀ m ∈ ms, m.1 = r → m.2.fault.isSome) : SparesPhases r turns := by
  cases h with
  | idle => exact sparesPhases_nil r
  | closed _ h _ hafter =>
    refine (h.sparesPhases hms).append (hafter.sparesPhases ?_)
    intro phase
    cases phase <;> exact nofun
  | cut _ h => exact h.sparesPhases hms

/-- Whatever its callbacks do, no group run calls a phase of a check that was built with a fault. -/
theorem not_enters_phase {b : Behaviour κ} {g : Nat} {filter : Label.Filter} {token : Nat}
    {handle : Option AbortHandle} {checks : List (Check κ)} {t : Trail κ} {x : Except Panic Outcome}
    (h : (run b g filter token handle).Goes
      (⟨.setCursor g none, ()⟩ :: ⟨.request (.checks g), checks⟩ :: t) x)
    {i : Nat} {c : Check κ} (hc : checks[i]? = some c) (hfault : c.fault.isSome) (phase : Phase) :
    ⟨.enter (phase.call ⟨g, i⟩), ()⟩ ∉ t := by
  obtain ⟨hooks, turns, -, htells, hturns⟩ := course_run h
  have hspares : SparesPhases ⟨g, i⟩ turns := by
    refine hturns.sparesPhases fun m hm hr => ?_
    obtain ⟨-, -, hchecks⟩ := mem_membersFrom.mp (List.mem_filter.mp hm).1
    rw [hr, Nat.sub_zero, hc] at hchecks
    cases hchecks
    exact hfault
  intro hmem
  have hcalled : phase.call ⟨g, i⟩ ∈ t.flatMap called :=
    List.mem_flatMap.mpr ⟨_, hmem, List.mem_singleton_self _⟩
  rw [htells.called] at hcalled
  exact hspares _ hcalled phase rfl

end Calls

section Reports

/-- What went wrong with running a check that was built with the fault. -/
def misbuiltText (fault : BuildFault) : String :=
  "unable to run due to a previously existing error: " ++ fault.message

def misbuiltKind (id : String) : String := "check " ++ id ++ " function unexpected error"

/-- The engine on which a check has failed with the fault that it was built with. -/
def reported (s : Setting κ) (m : Member κ) (fault : BuildFault) (later : List (Member κ))
    (e : Engine κ) : Engine κ :=
  failed s (misbuiltKind m.2.id) (misbuiltText fault) m.1 later (e.log m.1 .error
    ("Unexpected error while running check " ++ m.2.id ++ " function: " ++ misbuiltText fault))

variable {s : Setting κ} {first m : Member κ} {rest later : List (Member κ)}
  {e opened asked : Engine κ} {fault : BuildFault}

theorem exec_runCheck_misbuilt (hfault : m.2.fault = some fault) (e : Engine κ) :
    (runCheck s m later).exec Action.apply e =
      (.ok (some (.failure s.name (misbuiltKind m.2.id))), reported s m fault later e) := by
  have hrun : Running.run s.behaviour m.1 m.2 = .done (.error (.priorFault fault)) := by
    rw [Running.run, hfault]
    rfl
  rw [runCheck, hrun]
  exact Prog.exec_bind_of_ok (exec_fail s (misbuiltKind m.2.id) (misbuiltText fault) m.1 later _) _

/-- A check whose predicates let it run is granted the means to abort and run. -/
theorem exec_runUnlessExcused_let
    (hasked : (Running.skipDecision s.behaviour m.1 m.2).exec Action.apply opened =
      (.ok none, asked)) :
    (runUnlessExcused s m later).exec Action.apply opened =
      (runCheck s m later).exec Action.apply ((grantAbort s m).exec Action.apply asked).2 := by
  refine (Prog.exec_bind_of_ok hasked _).trans ?_
  rw [← Prog.exec_bind_of_ok (exec_grantAbort s m asked) fun _ => runCheck s m later]
  unfold grantAbort
  cases s.handle <;> rfl

/-- How a run comes to running a check, from the engine on which the selected checks are run: after
some rounds no stop is seen, the hook before the check goes well, and the predicates of the check,
which leave the last engine, let it run. -/
inductive ComesTo (s : Setting κ) (first : Member κ) (rest : List (Member κ)) (e : Engine κ)
    (m : Member κ) (later : List (Member κ)) : Engine κ → Prop
  | mk {total : Nat} {done : List (Member κ × Engine κ)} {ready reached opened asked : Engine κ}
      (hready : (runHook s "beforeAll" s.hooks.beforeAll
        (.beforeAll s.group ((first :: rest).map Prod.fst)) first.1 (first :: rest)).exec
          Action.apply e = (.ok none, ready))
      (hrounds : Rounds s 0 0 (first :: rest)
        (ready.modifyGroup s.group fun group => { group with cursor := some 0 }) done total
        (m :: later) reached)
      (hgoes : reached.tokenSet s.token = false)
      (hopened : (runHook s "beforeEach" s.hooks.beforeEach (.beforeEach m.1) m.1 later).exec
        Action.apply reached = (.ok none, opened))
      (hasked : (Running.skipDecision s.behaviour m.1 m.2).exec Action.apply opened =
        (.ok none, asked)) : ComesTo s first rest e m later asked

/-- The rounds end with the iteration of a check that fails when it is run. -/
theorem ComesTo.exec (h : ComesTo s first rest e m later asked) {error : GroupError}
    {ran : Engine κ} (hrun : (runCheck s m later).exec Action.apply
      ((grantAbort s m).exec Action.apply asked).2 = (.ok (some error), ran)) :
    ∃ total reached, (upToLast s first rest).exec Action.apply e =
        ((iteration s m later).bind fun errors => .done ⟨errors, total⟩).exec
          Action.apply reached ∧
      (iteration s m later).exec Action.apply reached =
        ((runHook s "afterEach" s.hooks.afterEach (.afterEach m.1) m.1 later).bind fun after =>
          .done (error :: after.toList)).exec Action.apply ran := by
  obtain @⟨total, done, ready, reached, opened, asked, hready, hrounds, hgoes, hopened, hasked⟩ := h
  have hround := exec_iteration_failing hopened ((exec_runUnlessExcused_let hasked).trans hrun)
  refine ⟨total, reached, ?_, hround⟩
  rw [exec_upToLast hready hrounds, exec_runFrom_failing hgoes hround]

/-- The error of the check is among those of the run, whatever the hooks after it do. -/
theorem ComesTo.mem_errors (h : ComesTo s first rest e m later asked) {error : GroupError}
    {ran : Engine κ} (hrun : (runCheck s m later).exec Action.apply
      ((grantAbort s m).exec Action.apply asked).2 = (.ok (some error), ran))
    {outcome : Outcome} {e' : Engine κ}
    (hend : (runSelected s first rest).exec Action.apply e = (.ok outcome, e')) :
    error ∈ outcome.errors := by
  obtain ⟨total, reached, hexec, hround⟩ := h.exec hrun
  rw [runSelected_eq] at hend
  obtain ⟨before, e₁, hbefore, hclosing⟩ := Prog.exec_bind_ok hend
  rw [hexec] at hbefore
  obtain ⟨errors, e₂, herrors, hdone⟩ := Prog.exec_bind_ok hbefore
  cases hdone
  rw [hround] at herrors
  obtain ⟨after, e₃, -, hafter⟩ := Prog.exec_bind_ok herrors
  cases hafter
  obtain ⟨last, e₄, -, hlast⟩ := Prog.exec_bind_ok hclosing
  cases hlast
  exact List.mem_cons_self

end Reports

section Whole

open Check (build faultOf taken assembled)

/-- A check takes steps up to the first that fails, and keeps the first fault. With a fault it is
run without a call and with the fault for its result. In a group its phases are not called either,
whatever the callbacks do. Its predicates are asked as for any check. If they ask for a skip it is
skipped, and if they let it run, its fault is made its error and that of the run. -/
theorem build_keeps_first_fault (id : String) (labels : List String)
    (steps : List (BuildStep κ)) :
    build id labels steps =
      assembled id labels (taken id labels steps) (faultOf id labels steps) ∧
    ∀ fault, faultOf id labels steps = some fault →
      (∀ later, build id labels (steps ++ later) = build id labels steps) ∧
      ∀ b : Behaviour κ,
        (∀ r, Running.run b r (build id labels steps) = .done (.error (.priorFault fault))) ∧
        (∀ g filter token handle checks t x i, checks[i]? = some (build id labels steps) →
          (run b g filter token handle).Goes
            (⟨.setCursor g none, ()⟩ :: ⟨.request (.checks g), checks⟩ :: t) x →
          ∀ phase : Phase, ⟨.enter (phase.call ⟨g, i⟩), ()⟩ ∉ t) ∧
        (∀ (s : Setting κ) r later opened asked reason, s.behaviour = b →
          (Running.skipDecision b r (build id labels steps)).exec Action.apply opened =
            (.ok (some reason), asked) →
          (runUnlessExcused s (r, build id labels steps) later).exec Action.apply opened =
            (.ok none, skipped reason asked (r, build id labels steps))) ∧
        ∀ g filter token handle e first rest r later asked,
          selected filter (membersOf e g) = first :: rest →
          let s := settingOn b g token handle (selecting g filter e)
          let m := (r, build id labels steps)
          ComesTo s first rest (selecting g filter e) m later asked →
          (runCheck s m later).exec Action.apply ((grantAbort s m).exec Action.apply asked).2 =
            (.ok (some (.failure s.name (misbuiltKind id))),
              reported s m fault later ((grantAbort s m).exec Action.apply asked).2) ∧
          ∀ outcome e', (run b g filter token handle).exec Action.apply e = (.ok outcome, e') →
            .failure s.name (misbuiltKind id) ∈ outcome.errors := by
  refine ⟨Check.build_eq id labels steps, fun fault hfault => ⟨fun later => ?_, fun b => ?_⟩⟩
  · exact Check.build_append_of_fault (by rw [hfault]; rfl) later
  have hbuilt : (build id labels steps).fault = some fault :=
    (Check.fault_build id labels steps).trans hfault
  have hid : (build id labels steps).id = id := by rw [Check.build_eq]; rfl
  refine ⟨fun r => ?_, ?_, ?_, ?_⟩
  · rw [Running.run, hbuilt]
    rfl
  · intro g filter token handle checks t x i hcheck hgoes
    exact not_enters_phase hgoes hcheck (by rw [hbuilt]; rfl)
  · rintro s r later opened asked reason rfl hasked
    exact (Prog.exec_bind_of_ok hasked _).trans (Prog.exec_bind_of_ok (exec_skipCheck _ _ _) _)
  · intro g filter token handle e first rest r later asked hselected s m hcomes
    let granted := ((grantAbort s m).exec Action.apply asked).2
    have hrun : (runCheck s m later).exec Action.apply granted =
        (.ok (some (.failure s.name (misbuiltKind m.2.id))), reported s m fault later granted) :=
      exec_runCheck_misbuilt hbuilt granted
    rw [hid] at hrun
    refine ⟨hrun, fun outcome e' hend => ?_⟩
    rw [exec_run hselected] at hend
    exact hcomes.mem_errors hrun hend

/-- The predicate of the first check asks for a skip. -/
def firstExcused : Behaviour Unit where
  act _ _ := .done (.ok ())
  excuse _ call := .done (if call.check? = some ⟨0, 0⟩ then some "no" else none)

def untimed : Check Unit := build "a" ["common"] [.skip (), .timeout 0, .body ()]

/-- An engine with a group that has so many copies of the check. -/
def copies (number : Nat) : Engine Unit :=
  { (Engine.start 0 : Engine Unit) with
    groups := [{ Group.fresh "g" with checks := List.replicate number (.fresh untimed) }] }

def runCopies : Worker Unit Outcome := run firstExcused 0 ⟨"common", .label "common"⟩ 0 none

/-- Of two copies of a check, the first is skipped and the second is reported. -/
theorem build_keeps_first_fault_twice :
    let s := settingOn firstExcused 0 0 none (copies 2)
    (∀ later, build "a" ["common"] ([.skip (), .timeout 0, .body ()] ++ later) = untimed) ∧
    (∀ r, Running.run firstExcused r untimed = .done (.error (.priorFault (.zeroTimeout "a")))) ∧
    (∀ phase : Phase,
      ⟨.enter (phase.call ⟨0, 1⟩), ()⟩ ∉ runCopies.trail Action.apply (copies 2)) ∧
    (∃ asked, (runUnlessExcused s (⟨0, 0⟩, untimed) []).exec Action.apply (copies 2) =
      (.ok none, skipped "no" asked (⟨0, 0⟩, untimed))) ∧
    ∃ outcome e', runCopies.exec Action.apply (copies 2) = (.ok outcome, e') ∧
      .failure "g" (misbuiltKind "a") ∈ outcome.errors ∧
      e'.standing? ⟨0, 0⟩ = some ⟨.skipped, "no"⟩ ∧
      e'.standing? ⟨0, 1⟩ =
        some ⟨.error, misbuiltKind "a" ++ ": " ++ misbuiltText (.zeroTimeout "a")⟩ := by
  intro s
  obtain ⟨-, hfirst⟩ :=
    build_keeps_first_fault "a" ["common"] [.skip (), .timeout 0, .body (κ := Unit) ()]
  obtain ⟨hsame, hruns⟩ := hfirst (.zeroTimeout "a") rfl
  obtain ⟨halone, hspares, hskip, hreport⟩ := hruns firstExcused
  refine ⟨hsame, halone, ?_, ⟨_, hskip s _ _ _ _ "no" rfl rfl⟩, ?_⟩
  · intro phase hentered
    have hspared := hspares 0 ⟨"common", .label "common"⟩ 0 none [untimed, untimed] _ _ 1 rfl
      (Prog.goes_trail Action.apply runCopies (copies 2)) phase
    rcases List.mem_cons.mp hentered with hfirst | hentered
    · cases hfirst
    rcases List.mem_cons.mp hentered with hsecond | hentered
    · cases hsecond
    · exact hspared hentered
  · let e := selecting 0 ⟨"common", .label "common"⟩ (copies 2)
    obtain ⟨asked, hcomes⟩ : ∃ asked, ComesTo (settingOn firstExcused 0 0 none e)
        (⟨0, 0⟩, untimed) [(⟨0, 1⟩, untimed)] e (⟨0, 1⟩, untimed) [] asked := by
      constructor
      apply ComesTo.mk
      case hready => rfl
      case hrounds =>
        apply Rounds.round rfl
        case hwell => rfl
        case hnext => apply Rounds.stay
      all_goals rfl
    obtain ⟨-, herror⟩ := hreport 0 ⟨"common", .label "common"⟩ 0 none (copies 2) _ _ ⟨0, 1⟩
      [] _ rfl hcomes
    exact ⟨_, _, rfl, herror _ _ rfl, rfl, rfl⟩

/-- Not every fault of a check that is run in a group is reported: the predicates of the check are
called first, and it is skipped if they ask for that. -/
theorem fault_hidden_by_skip :
    untimed.fault = some (.zeroTimeout "a") ∧
    (runCopies.trail Action.apply (copies 1)).flatMap called = [.skip ⟨0, 0⟩ 0] ∧
    ∃ e', runCopies.exec Action.apply (copies 1) = (.ok ⟨[], 0⟩, e') ∧
      e'.cursorOf 0 = some 1 ∧ e'.standing? ⟨0, 0⟩ = some ⟨.skipped, "no"⟩ :=
  ⟨rfl, rfl, _, rfl, rfl, rfl⟩

end Whole

end Conformance.Group
