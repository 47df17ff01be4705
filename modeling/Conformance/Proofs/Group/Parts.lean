import Conformance.Proofs.Group.Order
import Conformance.Proofs.Group.Policy
import Conformance.Proofs.Program.Reach

/-!
What a group run asks for, by who asks for it. The engine asks on its own account about the group,
its checks and its stop token, and enters callbacks of this group only. Everything else is asked for
by one of these callbacks. So what is allowed to both is all that a group run ever asks for.
-/
namespace Conformance

variable {κ α : Type}

/-- The group for which a callback is called. -/
def Call.group : Call → Nat
  | .beforeAll g _ | .afterAll g _ => g
  | .beforeEach r | .afterEach r | .skip r _ | .before r | .body r | .after r => r.group

namespace Group

/-- An operation that the engine asks for when it runs the group with this stop token. -/
def IsPart (g token : Nat) : Action κ → Prop
  | .request (.checks g') => g' = g
  | .request (.status r) | .request (.write r _ _) | .request (.judge r _) => r.group = g
  | .request _ => False
  | .enter call => call.group = g
  | .groupName g' | .hooks g' | .setCursor g' _ => g' = g
  | .stopped token' => token' = token
  | .grant r _ | .begin r | .finish r => r.group = g
  | .now => True
  | .send .. | .newToken _ | .setToken _ => False

/-- What the engine asks for and what the callbacks of the group ask for is allowed. -/
structure Allows (P : Action κ → Prop) (b : Behaviour κ) (g token : Nat) : Prop where
  part {op : Action κ} (h : IsPart g token op) : P op
  act (callback : κ) {call : Call} (h : call.group = g) :
    (Worker.ofCallback (b.act callback call)).Only P
  excuse (callback : κ) {call : Call} (h : call.group = g) :
    (Worker.ofCallback (b.excuse callback call)).Only P

namespace Allows

variable {P : Action κ → Prop} {b : Behaviour κ} {g token : Nat} (h : Allows P b g token)

include h

theorem only_act (op : Action κ) (hop : IsPart g token op) : (Worker.act op).Only P :=
  Prog.only_request (h.part hop)

theorem only_call {call : Call} (hcall : call.group = g) {p : Callback κ α}
    (hp : (Worker.ofCallback p).Only P) : (Worker.call call p).Only P :=
  (h.only_act (.enter call) hcall).bind fun _ => hp.guarded

omit h in
theorem only_text (P : Action κ → Prop) (failure : Failure) :
    (failure.text : Worker κ String).Only P := by
  unfold Failure.text
  cases failure.text? <;> trivial

theorem only_skipCheck {m : Member κ} (hm : m.1.group = g) (reason : String) :
    (skipCheck m reason).Only P :=
  (h.only_act (.request (.write m.1 _ _)) hm).bind fun _ =>
    h.only_act (.request (.judge m.1 _)) hm

theorem only_skipAll (reason : String) {ms : List (Member κ)} (hms : ∀ m ∈ ms, m.1.group = g) :
    (skipAll reason ms).Only P := by
  induction ms with
  | nil => trivial
  | cons m rest ih =>
    obtain ⟨hm, hrest⟩ := List.forall_mem_cons.mp hms
    exact (h.only_skipCheck hm reason).bind fun _ => ih hrest

theorem only_select (filter : Label.Filter) {ms : List (Member κ)}
    (hms : ∀ m ∈ ms, m.1.group = g) : (select filter ms).Only P := by
  induction ms with
  | nil => trivial
  | cons m rest ih =>
    obtain ⟨hm, hrest⟩ := List.forall_mem_cons.mp hms
    rw [select]
    split
    · exact (ih hrest).bind fun _ => trivial
    · exact (h.only_skipCheck hm notMatching).bind fun _ => ih hrest

theorem only_react {s : Setting κ} {current : CheckRef} (hcurrent : current.group = g)
    {remaining : List (Member κ)} (hremaining : ∀ m ∈ remaining, m.1.group = g)
    (trouble : Option Trouble) : (react s current remaining trouble).Only P := by
  match trouble with
  | none => trivial
  | some (.abort message) => trivial
  | some (.failure kind message) =>
    refine Prog.Only.bind ?_ fun _ => trivial
    refine (h.only_act (.request (.judge current _)) hcurrent).bind fun _ => ?_
    exact (h.only_skipAll _ hremaining).bind fun _ => trivial

theorem only_runHook {s : Setting κ} (hs : s.behaviour = b) (name : String) (hook : Option κ)
    {call : Call} (hcall : call.group = g) {current : CheckRef} (hcurrent : current.group = g)
    {remaining : List (Member κ)} (hremaining : ∀ m ∈ remaining, m.1.group = g) :
    (runHook s name hook call current remaining).Only P := by
  rw [runHook_eq, hs]
  refine Prog.Only.bind ?_ (h.only_react hcurrent hremaining)
  cases hook with
  | none => trivial
  | some callback =>
    refine (h.only_call hcall (h.act callback hcall)).bind ?_
    intro result
    match result with
    | .ok (.ok ()) => trivial
    | .ok (.error failure) => exact (only_text P failure).bind fun _ => trivial
    | .error panic => trivial

theorem only_excusesFrom {r : CheckRef} (hr : r.group = g) (callbacks : List κ) :
    ∀ index given, (Running.excusesFrom b r index given callbacks).Only P := by
  induction callbacks with
  | nil => exact fun _ _ => trivial
  | cons callback rest ih =>
    intro index given
    have hcall : (Call.skip r index).group = g := hr
    refine (h.only_call hcall (h.excuse callback hcall)).bind ?_
    intro answer
    match answer with
    | .ok (some reason) => exact ih _ _
    | .ok none => exact ih _ _
    | .error panic =>
      exact (h.only_act (.request (.write r _ _)) hr).bind fun _ => trivial

theorem only_runPhases {r : CheckRef} (hr : r.group = g) (id : String)
    (steps : List (Phase × κ)) : (Running.runPhases b r id steps).Only P := by
  induction steps with
  | nil => trivial
  | cons step rest ih =>
    obtain ⟨phase, callback⟩ := step
    have hcall : (phase.call r).group = g := by cases phase <;> exact hr
    have hphase : (Running.runPhase b r id phase callback).Only P := by
      refine (h.only_act (.enter (phase.call r)) hcall).bind fun _ => ?_
      refine (h.act callback hcall).bind ?_
      intro result
      cases result <;> trivial
    refine hphase.bind ?_
    intro result
    cases result with
    | ok => exact ih
    | error fault => trivial

theorem only_checkRun {m : Member κ} (hm : m.1.group = g) : (Running.run b m.1 m.2).Only P := by
  unfold Running.run
  cases m.2.fault with
  | some fault => trivial
  | none =>
    cases m.2.body with
    | none => trivial
    | some body =>
      refine (h.only_act (.begin m.1) hm).bind fun began => ?_
      refine (h.only_runPhases hm m.2.id _).guarded.bind fun result => ?_
      refine Prog.Only.bind ?_ ?_
      · refine (h.only_act (.finish m.1) hm).bind fun _ => ?_
        cases m.2.timeout with
        | none => trivial
        | some limit =>
          refine (h.only_act .now trivial).bind fun now => ?_
          simp only
          split
          · exact h.only_act (.request (.write m.1 _ _)) hm
          · trivial
      · intro _
        cases result <;> trivial

theorem only_checkTrouble {m : Member κ} (hm : m.1.group = g)
    (result : Except Panic (Except RunFault Unit)) : (checkTrouble m result).Only P := by
  have hwritten {message : String} {trouble : Trouble} :
      ((Worker.ask (.write m.1 .error message)).bind fun _ =>
        (.done (some trouble) : Worker κ (Option Trouble))).Only P :=
    (h.only_act (.request (.write m.1 _ _)) hm).bind fun _ => trivial
  match result with
  | .ok (.ok ()) => trivial
  | .ok (.error fault) =>
    cases fault with
    | aborted message => trivial
    | inPhase id phase cause =>
      refine Prog.Only.bind ?_ fun _ => hwritten
      exact (only_text P cause).bind fun _ => trivial
    | _ => exact hwritten
  | .error panic => exact hwritten

theorem only_runUnlessExcused {s : Setting κ} (hs : s.behaviour = b) {m : Member κ}
    (hm : m.1.group = g) {remaining : List (Member κ)}
    (hremaining : ∀ n ∈ remaining, n.1.group = g) :
    (runUnlessExcused s m remaining).Only P := by
  rw [runUnlessExcused_eq]
  refine Prog.Only.bind ?_ (h.only_react hm hremaining)
  unfold tryCheck
  rw [hs]
  refine Prog.Only.bind (p := Running.skipDecision b m.1 m.2) ?_ ?_
  · refine (h.only_excusesFrom hm m.2.skips 0 []).bind ?_
    intro answer
    cases answer <;> trivial
  · intro decision
    cases decision with
    | some reason => exact (h.only_skipCheck hm reason).bind fun _ => trivial
    | none =>
      refine Prog.Only.bind (p := grantAbort s m) ?_ fun _ => ?_
      · unfold grantAbort
        cases s.handle with
        | none => trivial
        | some handle => exact h.only_act (.grant m.1 handle) hm
      · exact (h.only_checkRun hm).guarded.bind (h.only_checkTrouble hm)

theorem only_iteration {s : Setting κ} (hs : s.behaviour = b) {m : Member κ} (hm : m.1.group = g)
    {remaining : List (Member κ)} (hremaining : ∀ n ∈ remaining, n.1.group = g) :
    (iteration s m remaining).Only P := by
  rw [iteration_eq]
  refine (h.only_runHook hs _ _ (by exact hm) hm hremaining).bind fun before => ?_
  refine Prog.Only.bind ?_ fun body => ?_
  · split
    · exact h.only_runUnlessExcused hs hm hremaining
    · trivial
  · exact (h.only_runHook hs _ _ (by exact hm) hm hremaining).bind fun _ => trivial

theorem only_runFrom {s : Setting κ} (hs : s.behaviour = b) (hgroup : s.group = g)
    (htoken : s.token = token) {ms : List (Member κ)} (hms : ∀ m ∈ ms, m.1.group = g) :
    ∀ index failed, (runFrom s index failed ms).Only P := by
  induction ms with
  | nil => exact fun _ _ => trivial
  | cons m later ih =>
    intro index failed
    obtain ⟨hm, hlater⟩ := List.forall_mem_cons.mp hms
    rw [runFrom_cons]
    refine (h.only_act (.stopped s.token) htoken).bind fun stopped => ?_
    split
    · trivial
    · refine (h.only_iteration hs hm hlater).bind fun errors => ?_
      split
      · trivial
      · refine (h.only_act (.request (.status m.1)) hm).bind fun status => ?_
        exact (h.only_act (.setCursor s.group _) hgroup).bind fun _ => ih hlater _ _

theorem only_runSelected {s : Setting κ} (hs : s.behaviour = b) (hgroup : s.group = g)
    (htoken : s.token = token) {first : Member κ} {rest : List (Member κ)}
    (hms : ∀ m ∈ first :: rest, m.1.group = g) : (runSelected s first rest).Only P := by
  have hlast : (lastOf first rest).group = g := by
    obtain ⟨m, hm, hsame⟩ := List.mem_map.mp (lastOf_mem first rest)
    rw [← hsame]
    exact hms m hm
  rw [runSelected_eq]
  refine Prog.Only.bind ?_ fun outcome =>
    (h.only_runHook hs _ _ (by exact hgroup) hlast (List.forall_mem_nil _)).bind fun _ => trivial
  refine (h.only_runHook hs _ _ (by exact hgroup) (hms first List.mem_cons_self) hms).bind
    fun before => ?_
  cases before with
  | some error => trivial
  | none =>
    exact (h.only_act (.setCursor s.group _) hgroup).bind fun _ =>
      h.only_runFrom hs hgroup htoken hms 0 0

theorem only_run (filter : Label.Filter) (handle : Option AbortHandle) :
    (run b g filter token handle).Only P := by
  refine (h.only_act (.setCursor g none) rfl).bind fun _ => ?_
  refine (h.only_act (.request (.checks g)) rfl).bind fun checks => ?_
  have hmembers : ∀ m ∈ members g checks, m.1.group = g := fun m hm => (mem_membersFrom.mp hm).1
  refine (h.only_select filter hmembers).bind_goes fun t chosen hchosen => ?_
  cases (goes_select hchosen).1
  generalize hms : selected filter (members g checks) = ms
  have hgroup : ∀ m ∈ ms, m.1.group = g := by
    intro m hm
    rw [← hms] at hm
    exact hmembers m (List.mem_filter.mp hm).1
  cases ms with
  | nil => trivial
  | cons first rest =>
    refine (h.only_act (.hooks g) rfl).bind fun hooks => ?_
    refine (h.only_act (.groupName g) rfl).bind fun name => ?_
    exact h.only_runSelected rfl rfl rfl hgroup

end Allows

end Group

end Conformance
