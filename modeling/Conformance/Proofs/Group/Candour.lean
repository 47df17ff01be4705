import Conformance.Proofs.Group.Coverage
import Conformance.Proofs.Program.Reach

/-!
Who settles checks in a group run without an error. The engine puts a check in error only where it
has an error to hand back, and aborts none. So in a run that comes to no error only predicates
settle checks, and callbacks that end well.
-/
namespace Conformance

variable {κ : Type}

/-- The verdict puts a check in the state, unless it leaves the check as it is. -/
def Verdict.PutsIn (verdict : Verdict) (state : CheckState) : Prop :=
  ∃ w, Standing.ofVerdict? verdict = some w ∧ w.state = state

/-- The operation brings such a verdict on the check. -/
def Action.PutsIn (r : CheckRef) (state : CheckState) (op : Action κ) : Prop :=
  ∃ verdict, op.verdictOn? r = some verdict ∧ verdict.PutsIn state

def CheckState.IsSettled (state : CheckState) : Prop := state = .error ∨ state = .aborted

/-- The operation is about to settle a check. -/
def Action.Settles (op : Action κ) : Prop := ∃ r state, state.IsSettled ∧ op.PutsIn r state

theorem Action.not_settles_skip (r : CheckRef) (reason : String) :
    ¬(Action.request (.judge r (.skipped reason)) : Action κ).Settles := by
  rintro ⟨r', state, hstate, verdict, hverdict, w, hw, rfl⟩
  cases Action.eq_judge_of_verdictOn? hverdict
  cases hw
  rcases hstate with h | h <;> cases h

theorem Action.not_settles_of_verdictOn? {op : Action κ} (h : ∀ r, op.verdictOn? r = none) :
    ¬op.Settles := by
  rintro ⟨r, state, -, verdict, hverdict, -⟩
  rw [h r] at hverdict
  cases hverdict

namespace Group

variable {b : Behaviour κ} {s : Setting κ} {m : Member κ} {t u : Trail κ}

section Unnoticed

/-- The engine has no error to hand back on account of this exchange: it is one of a predicate, or
of a callback that ended well. -/
inductive IsUnnoticed (b : Behaviour κ) (t : Trail κ) (a : Prog.Exchange (@Action.Resp κ)) : Prop
  | called {callback : κ} {call : Call} {u : Trail κ} (hu : ⟨.enter call, ()⟩ :: u <:+: t)
      (hcall : (Worker.ofCallback (b.act callback call)).Goes u (.ok (.ok ()))) (ha : a ∈ u)
  | asked {callback : κ} {call : Call} {u : Trail κ} {answer : Except Panic (Option String)}
      (hu : ⟨.enter call, ()⟩ :: u <:+: t)
      (hcall : (Worker.ofCallback (b.excuse callback call)).Goes u answer) (ha : a ∈ u)

/-- Whatever settles a check goes unnoticed. -/
def Discreet (b : Behaviour κ) (t : Trail κ) : Prop := ∀ a ∈ t, a.1.Settles → IsUnnoticed b t a

theorem IsUnnoticed.mono {a : Prog.Exchange (@Action.Resp κ)} (h : IsUnnoticed b t a)
    (htu : t <:+: u) : IsUnnoticed b u a := by
  cases h with
  | called hv hcall ha => exact .called (hv.trans htu) hcall ha
  | asked hv hcall ha => exact .asked (hv.trans htu) hcall ha

theorem discreet_nil (b : Behaviour κ) : Discreet b [] := List.forall_mem_nil _

theorem Discreet.append (ht : Discreet b t) (hu : Discreet b u) : Discreet b (t ++ u) := by
  refine List.forall_mem_append.mpr ⟨fun a ha hsettles => ?_, fun a ha hsettles => ?_⟩
  · exact (ht a ha hsettles).mono (List.prefix_append t u).isInfix
  · exact (hu a ha hsettles).mono (List.suffix_append t u).isInfix

theorem Discreet.cons {a : Prog.Exchange (@Action.Resp κ)} (ha : ¬a.1.Settles)
    (ht : Discreet b t) : Discreet b (a :: t) := by
  refine List.forall_mem_cons.mpr ⟨fun hsettles => absurd hsettles ha, fun c hc hsettles => ?_⟩
  exact (ht c hc hsettles).mono (List.suffix_cons a t).isInfix

theorem discreet_of_only {α : Type} {p : Worker κ α} (hp : p.Only fun op => ¬op.Settles)
    {x : Except Panic α} (h : p.Goes t x) : Discreet b t :=
  fun a ha hsettles => absurd hsettles (hp.goes h a ha)

theorem discreet_called {callback : κ} {call : Call}
    (h : (Worker.ofCallback (b.act callback call)).Goes t (.ok (.ok ()))) :
    Discreet b (⟨.enter call, ()⟩ :: t) := by
  refine List.forall_mem_cons.mpr ⟨fun hsettles => ?_, fun a ha _ => ?_⟩
  · exact absurd hsettles (Action.not_settles_of_verdictOn? fun _ => rfl)
  · exact .called (List.infix_refl _) h ha

theorem discreet_asked {callback : κ} {call : Call} {answer : Except Panic (Option String)}
    (h : (Worker.ofCallback (b.excuse callback call)).Goes t answer) :
    Discreet b (⟨.enter call, ()⟩ :: t) := by
  refine List.forall_mem_cons.mpr ⟨fun hsettles => ?_, fun a ha _ => ?_⟩
  · exact absurd hsettles (Action.not_settles_of_verdictOn? fun _ => rfl)
  · exact .asked (List.infix_refl _) h ha

end Unnoticed

section Parts

theorem settlesNone_act {op : Action κ} (h : ∀ r, op.verdictOn? r = none) :
    (Worker.act op).Only fun op => ¬op.Settles :=
  Prog.only_request (Action.not_settles_of_verdictOn? h)

theorem settlesNone_skipCheck (m : Member κ) (reason : String) :
    (skipCheck m reason).Only fun op => ¬op.Settles :=
  (settlesNone_act fun _ => rfl).bind fun _ => Prog.only_request (Action.not_settles_skip m.1 _)

theorem settlesNone_select (filter : Label.Filter) (ms : List (Member κ)) :
    (select filter ms).Only fun op => ¬op.Settles := by
  induction ms with
  | nil => trivial
  | cons m ms ih =>
    rw [select]
    split
    · exact ih.bind fun _ => trivial
    · exact (settlesNone_skipCheck m notMatching).bind fun _ => ih

theorem settlesNone_finish (r : CheckRef) (c : Check κ) (began : Nat) :
    (Running.finish r c began).Only fun op => ¬op.Settles := by
  refine (settlesNone_act fun _ => rfl).bind fun _ => ?_
  cases c.timeout with
  | none => trivial
  | some limit =>
    refine (settlesNone_act fun _ => rfl).bind fun now => ?_
    simp only
    split
    · exact settlesNone_act fun _ => rfl
    · trivial

theorem settlesNone_grantAbort (s : Setting κ) (m : Member κ) :
    (grantAbort s m).Only fun op => ¬op.Settles := by
  unfold grantAbort
  cases s.handle with
  | none => trivial
  | some handle => exact settlesNone_act fun _ => rfl

theorem discreet_of_allDone {calls : List (κ × Call)} (h : AllDone b calls t) : Discreet b t := by
  induction h with
  | nil => exact discreet_nil b
  | cons hcall _ ih => exact (discreet_called hcall).append ih

/-- Where there is no trouble, the engine does not react. -/
theorem goes_of_react {attempt : Worker κ (Option Trouble)} {current : CheckRef}
    {remaining : List (Member κ)}
    (h : (attempt.bind (react s current remaining)).Goes t (.ok none)) :
    attempt.Goes t (.ok none) := by
  obtain ⟨t₁, t₂, trouble, rfl, hattempt, hreact⟩ := Prog.goes_bind_ok h
  match trouble with
  | none =>
    obtain ⟨rfl, -⟩ := Prog.goes_done hreact
    rwa [List.append_nil]
  | some (.abort message) => cases (Prog.goes_done hreact).2
  | some (.failure kind message) =>
    obtain ⟨t₃, t₄, failure, -, -, hdone⟩ := Prog.goes_bind_ok hreact
    cases (Prog.goes_done hdone).2

theorem discreet_runHook {name : String} {hook : Option κ} {call : Call} {current : CheckRef}
    {remaining : List (Member κ)}
    (h : (runHook s name hook call current remaining).Goes t (.ok none)) :
    Discreet s.behaviour t := by
  rw [runHook_eq] at h
  have htry := goes_of_react h
  cases hook with
  | none =>
    rw [(Prog.goes_done htry).1]
    exact discreet_nil _
  | some callback =>
    obtain ⟨t₁, t₂, result, rfl, hcalled, htrouble⟩ := Prog.goes_bind_ok htry
    obtain ⟨_, t₁, rfl, hentered⟩ := Prog.goes_request_bind hcalled
    obtain ⟨y, hy, hcall⟩ := Prog.goes_guarded hentered
    cases hy
    match result with
    | .ok (.ok ()) =>
      rw [(Prog.goes_done htrouble).1, List.append_nil]
      exact discreet_called hcall
    | .ok (.error failure) =>
      obtain ⟨t₃, t₄, text, -, -, hdone⟩ := Prog.goes_bind_ok htrouble
      cases (Prog.goes_done hdone).2
    | .error panic => cases (Prog.goes_done htrouble).2

theorem discreet_excusesFrom {r : CheckRef} {callbacks : List κ} :
    ∀ {index : Nat} {given : List String} {t : Trail κ} {x : Except Panic (List String ⊕ String)},
      (Running.excusesFrom b r index given callbacks).Goes t x → Discreet b t := by
  induction callbacks with
  | nil =>
    intro index given t x h
    rw [(Prog.goes_done h).1]
    exact discreet_nil b
  | cons callback rest ih =>
    intro index given t x h
    simp only [Running.excusesFrom, Worker.call, Worker.act, Prog.bind_eq, Prog.bind_assoc,
      Prog.pure_eq] at h
    obtain ⟨-, t, rfl, hcalled⟩ := Prog.goes_request_bind h
    obtain ⟨t₁, t₂, answer, rfl, hcall, hrest⟩ := Prog.goes_guarded_bind hcalled
    refine (discreet_asked hcall).append ?_
    cases answer with
    | ok excuse => cases excuse <;> exact ih hrest
    | error panic =>
      obtain ⟨_, t₃, rfl, hdone⟩ := Prog.goes_request_bind hrest
      rw [(Prog.goes_done hdone).1]
      exact Discreet.cons (Action.not_settles_of_verdictOn? fun _ => rfl) (discreet_nil b)

theorem discreet_checkRun (h : (Running.run b m.1 m.2).Goes t (.ok (.ok ()))) : Discreet b t := by
  unfold Running.run at h
  cases hfault : m.2.fault with
  | some fault =>
    rw [hfault] at h
    cases (Prog.goes_done h).2
  | none =>
    cases hbody : m.2.body with
    | none =>
      rw [hfault, hbody] at h
      cases (Prog.goes_done h).2
    | some body =>
      simp only [hfault, hbody, Worker.act, Prog.bind_eq, Prog.pure_eq] at h
      obtain ⟨began, u, rfl, hbegun⟩ := Prog.goes_request_bind h
      obtain ⟨t₁, t₂, result, rfl, hphases, hrest⟩ := Prog.goes_guarded_bind hbegun
      obtain ⟨t₃, t₄, _, rfl, hfinish, hlast⟩ := Prog.goes_bind_ok hrest
      refine Discreet.cons (Action.not_settles_of_verdictOn? fun _ => rfl) ?_
      cases result with
      | ok result =>
        obtain ⟨rfl, hresult⟩ := Prog.goes_done hlast
        cases hresult
        refine (discreet_of_allDone (allDone_of_goes hphases)).append ?_
        exact (discreet_of_only (settlesNone_finish _ _ _) hfinish).append (discreet_nil b)
      | error panic => cases (Prog.goes_panic hlast).2

theorem discreet_tryCheck (h : (tryCheck s m).Goes t (.ok none)) : Discreet s.behaviour t := by
  obtain ⟨t₁, t₂, decision, rfl, hasked, hdecided⟩ := Prog.goes_bind_ok h
  obtain ⟨t₃, t₄, answer, rfl, hexcuses, hchosen⟩ := Prog.goes_bind_ok hasked
  have hnothing : t₄ = [] := by
    cases answer <;> exact (Prog.goes_done hchosen).1
  rw [hnothing, List.append_nil]
  refine (discreet_excusesFrom hexcuses).append ?_
  cases decision with
  | some reason =>
    obtain ⟨t₅, t₆, _, rfl, hskipped, hdone⟩ := Prog.goes_bind_ok hdecided
    rw [(Prog.goes_done hdone).1, List.append_nil]
    exact discreet_of_only (settlesNone_skipCheck m reason) hskipped
  | none =>
    obtain ⟨t₅, t₆, _, rfl, hgrant, hgranted⟩ := Prog.goes_bind_ok hdecided
    obtain ⟨t₇, t₈, result, rfl, hrun, htrouble⟩ := Prog.goes_guarded_bind hgranted
    obtain rfl := eq_ok_of_checkTrouble htrouble
    rw [(Prog.goes_done htrouble).1, List.append_nil]
    exact (discreet_of_only (settlesNone_grantAbort s m) hgrant).append (discreet_checkRun hrun)

theorem discreet_iteration {remaining : List (Member κ)}
    (h : (iteration s m remaining).Goes t (.ok [])) : Discreet s.behaviour t := by
  rw [iteration_eq] at h
  obtain ⟨t₁, u, before, rfl, hbefore, hrest⟩ := Prog.goes_bind_ok h
  obtain ⟨t₂, v, body, rfl, hbody, hlast⟩ := Prog.goes_bind_ok hrest
  obtain ⟨t₃, t₄, after, rfl, hafter, hdone⟩ := Prog.goes_bind_ok hlast
  obtain ⟨rfl, herrors⟩ := Prog.goes_done hdone
  obtain ⟨⟨rfl, rfl⟩, rfl⟩ : (before = none ∧ body = none) ∧ after = none := by
    have hnone := (Except.ok.inj herrors).symm
    simpa only [List.append_eq_nil_iff, Option.toList_eq_nil_iff] using hnone
  rw [Option.isNone_none, if_pos rfl, runUnlessExcused_eq] at hbody
  refine (discreet_runHook hbefore).append ((discreet_tryCheck (goes_of_react hbody)).append ?_)
  exact (discreet_runHook hafter).append (discreet_nil _)

end Parts

section Runs

variable {outcome : Outcome}

theorem discreet_runFrom {ms : List (Member κ)} :
    ∀ {index failed : Nat} {t : Trail κ} {outcome : Outcome},
      (runFrom s index failed ms).Goes t (.ok outcome) → outcome.errors = [] →
      Discreet s.behaviour t := by
  induction ms with
  | nil =>
    intro index failed t outcome h _
    rw [(Prog.goes_done h).1]
    exact discreet_nil _
  | cons m later ih =>
    intro index failed t outcome h herrors
    rw [runFrom_cons] at h
    obtain ⟨stopped, t, rfl, hgone⟩ := Prog.goes_request_bind h
    refine Discreet.cons (Action.not_settles_of_verdictOn? fun _ => rfl) ?_
    cases stopped with
    | true =>
      rw [(Prog.goes_done hgone).1]
      exact discreet_nil _
    | false =>
      obtain ⟨t₁, t₂, errors, rfl, hround, hrest⟩ := Prog.goes_bind_ok hgone
      cases errors with
      | cons error errors =>
        cases (Prog.goes_done hrest).2
        cases herrors
      | nil =>
        obtain ⟨status, t₃, rfl, hmoved⟩ := Prog.goes_request_bind hrest
        obtain ⟨_, t₄, rfl, hnext⟩ := Prog.goes_request_bind hmoved
        refine (discreet_iteration hround).append (Discreet.cons ?_ (Discreet.cons ?_ ?_))
        · exact Action.not_settles_of_verdictOn? fun _ => rfl
        · exact Action.not_settles_of_verdictOn? fun _ => rfl
        · exact ih hnext herrors

theorem discreet_upToLast {first : Member κ} {rest : List (Member κ)}
    (h : (upToLast s first rest).Goes t (.ok outcome)) (herrors : outcome.errors = []) :
    Discreet s.behaviour t := by
  obtain ⟨t₁, t₂, before, rfl, hbefore, hrest⟩ := Prog.goes_bind_ok h
  cases before with
  | some error =>
    cases (Prog.goes_done hrest).2
    cases herrors
  | none =>
    obtain ⟨_, t₃, rfl, hloop⟩ := Prog.goes_request_bind hrest
    refine (discreet_runHook hbefore).append (Discreet.cons ?_ (discreet_runFrom hloop herrors))
    exact Action.not_settles_of_verdictOn? fun _ => rfl

/-- A group run without an error settles checks only by predicates and by callbacks that end
well. -/
theorem discreet_run {g : Nat} {filter : Label.Filter} {token : Nat} {handle : Option AbortHandle}
    (h : (run b g filter token handle).Goes t (.ok outcome)) (herrors : outcome.errors = []) :
    Discreet b t := by
  obtain ⟨_, t, rfl, hreset⟩ := Prog.goes_request_bind h
  obtain ⟨checks, t, rfl, hread⟩ := Prog.goes_request_bind hreset
  obtain ⟨t₁, t₂, chosen, rfl, hselect, hrest⟩ := Prog.goes_bind_ok hread
  refine Discreet.cons (Action.not_settles_of_verdictOn? fun _ => rfl) (Discreet.cons ?_
    ((discreet_of_only (settlesNone_select _ _) hselect).append ?_))
  · exact Action.not_settles_of_verdictOn? fun _ => rfl
  cases chosen with
  | nil =>
    rw [(Prog.goes_done hrest).1]
    exact discreet_nil b
  | cons first rest =>
    obtain ⟨hooks, t₃, rfl, hnamed⟩ := Prog.goes_request_bind hrest
    obtain ⟨name, t₄, rfl, hselected⟩ := Prog.goes_request_bind hnamed
    refine Discreet.cons (Action.not_settles_of_verdictOn? fun _ => rfl) (Discreet.cons ?_ ?_)
    · exact Action.not_settles_of_verdictOn? fun _ => rfl
    rw [runSelected_eq] at hselected
    obtain ⟨t₅, t₆, inner, rfl, hinner, hclosing⟩ := Prog.goes_bind_ok hselected
    obtain ⟨t₇, t₈, after, rfl, hafter, hdone⟩ := Prog.goes_bind_ok hclosing
    obtain ⟨rfl, houtcome⟩ := Prog.goes_done hdone
    cases houtcome
    obtain ⟨hnone, hlast⟩ := List.append_eq_nil_iff.mp herrors
    rw [Option.toList_eq_nil_iff] at hlast
    rw [hlast] at hafter
    refine (discreet_upToLast hinner hnone).append ((discreet_runHook hafter).append ?_)
    exact discreet_nil _

end Runs

end Group

end Conformance
