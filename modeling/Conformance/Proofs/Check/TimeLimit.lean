import Conformance.Proofs.Check.Phases
import Conformance.Proofs.Run.Standing

/-!
The time limit of a check is advice. Whoever does not read it out of the definition of the check
does the same on two engines that differ in nothing else, so that two runs of the check with
different limits come to the same, and differ only in the warning that comes last.
-/
namespace Conformance

variable {κ α β : Type}

/-- Changes at two places, or changes that commute, can be made in either order. -/
theorem modify_comm (l : List α) {i j : Nat} {f g : α → α}
    (h : i = j → ∀ a, l[i]? = some a → g (f a) = f (g a)) :
    (l.modify i f).modify j g = (l.modify j g).modify i f := by
  by_cases hij : i = j
  · subst hij
    rw [List.modify_modify_eq, List.modify_modify_eq]
    refine List.ext_getElem? fun k => ?_
    simp only [List.getElem?_modify]
    cases hk : l[k]? with
    | none => rfl
    | some a =>
      by_cases hi : i = k
      · simp [hi, h rfl a (hi ▸ hk)]
      · simp [hi]
  · exact List.modify_modify_ne f g l hij

theorem modify_concat (l : List α) {i : Nat} (h : i < l.length) (f : α → α) (a : α) :
    (l ++ [a]).modify i f = l.modify i f ++ [a] := by
  induction l generalizing i with
  | nil => cases h
  | cons b l ih =>
    cases i with
    | zero => rfl
    | succ i => simp [ih (Nat.lt_of_succ_lt_succ h)]

theorem map_modify (l : List α) (i : Nat) {f : α → α} {g : α → β} {k : β → β}
    (h : ∀ a, g (f a) = k (g a)) : (l.modify i f).map g = (l.map g).modify i k := by
  refine List.ext_getElem? fun j => ?_
  rw [List.getElem?_map, List.getElem?_modify, List.getElem?_modify, List.getElem?_map]
  cases l[j]? with
  | none => rfl
  | some a =>
    by_cases hij : i = j
    · simp [hij, h]
    · simp [hij]

namespace Engine

variable (e : Engine κ)

/-- The engine with another time limit for a check. -/
def retimed (r : CheckRef) (limit : Option Nat) : Engine κ :=
  e.modifyCheck r fun c => { c with check := { c.check with timeout := limit } }

theorem modifyGroup_comm {g g' : Nat} {f f' : Group κ → Group κ}
    (h : g = g' → ∀ group, e.group? g = some group → f' (f group) = f (f' group)) :
    (e.modifyGroup g f).modifyGroup g' f' = (e.modifyGroup g' f').modifyGroup g f := by
  rw [modifyGroup, modifyGroup, modifyGroup, modifyGroup, modify_comm e.groups h]

theorem modifyCheck_comm {r r' : CheckRef} {f f' : Registered κ → Registered κ}
    (h : r = r' → ∀ c, f' (f c) = f (f' c)) :
    (e.modifyCheck r f).modifyCheck r' f' = (e.modifyCheck r' f').modifyCheck r f := by
  refine e.modifyGroup_comm fun hg group _ => ?_
  rw [modify_comm group.checks fun hi c _ => h ?_ c]
  cases r
  cases r'
  rw [CheckRef.mk.injEq]
  exact ⟨hg, hi⟩

variable (r : CheckRef) (limit : Option Nat)

theorem group?_retimed (g : Nat) :
    (e.group? g = none ∧ (e.retimed r limit).group? g = none) ∨
      ∃ group checks, e.group? g = some group ∧ checks.length = group.checks.length ∧
        (e.retimed r limit).group? g = some { group with checks := checks } := by
  rw [retimed, modifyCheck, group?_modifyGroup]
  cases e.group? g with
  | none => exact .inl ⟨rfl, by split <;> rfl⟩
  | some group =>
    refine .inr ⟨group, ?_⟩
    split
    · exact ⟨_, rfl, List.length_modify .., rfl⟩
    · exact ⟨_, rfl, rfl, rfl⟩

theorem checks_retimed (g : Nat) : ((e.retimed r limit).checksOf g).map Registered.check =
    if r.group = g then
      ((e.checksOf g).map Registered.check).modify r.index fun c => { c with timeout := limit }
    else (e.checksOf g).map Registered.check := by
  rw [checksOf, retimed, modifyCheck, group?_modifyGroup, checksOf]
  by_cases hg : r.group = g
  · rw [if_pos hg, if_pos hg]
    cases e.group? g with
    | none => simp
    | some group => exact map_modify group.checks r.index fun _ => rfl
  · rw [if_neg hg, if_neg hg]

theorem check?_retimed (r' : CheckRef) :
    (e.check? r' = none ∧ (e.retimed r limit).check? r' = none) ∨
      ∃ c t, e.check? r' = some c ∧ (e.retimed r limit).check? r' =
        some { c with check := { c.check with timeout := t } } := by
  rw [retimed, check?_modifyCheck]
  cases e.check? r' with
  | none => exact .inl ⟨rfl, by split <;> rfl⟩
  | some c =>
    refine .inr ⟨c, ?_⟩
    split
    · exact ⟨limit, rfl, rfl⟩
    · exact ⟨c.check.timeout, rfl, rfl⟩

theorem modifyCheck_retimed (r' : CheckRef) {f : Registered κ → Registered κ}
    (hf : ∀ c limit, f { c with check := { c.check with timeout := limit } } =
      { f c with check := { (f c).check with timeout := limit } }) :
    (e.retimed r limit).modifyCheck r' f = (e.modifyCheck r' f).retimed r limit :=
  e.modifyCheck_comm fun _ c => hf c limit

theorem log_retimed (r' : CheckRef) (level : LogLevel) (message : String) :
    (e.retimed r limit).log r' level message = (e.log r' level message).retimed r limit := by
  have hlogged := e.modifyCheck_retimed r limit r'
    (f := fun c => { c with log := c.log ++ [⟨level, e.now, message⟩] }) fun _ _ => rfl
  exact congrArg tick hlogged

theorem judge_retimed (r' : CheckRef) (verdict : Verdict) :
    (e.retimed r limit).judge r' verdict = (e.judge r' verdict).retimed r limit := by
  have hjudged := e.modifyCheck_retimed r limit r'
    (f := fun c => { c with status := c.status.apply verdict }) fun _ _ => rfl
  rcases e.check?_retimed r limit r' with ⟨h, h'⟩ | ⟨c, t, h, h'⟩
  · simp only [judge, h, h']
  · simp only [judge, h, h', hjudged]
    split
    · rfl
    · exact log_retimed _ r limit r' _ _

theorem send_retimed (run : Nat) (signal : Signal) :
    (e.retimed r limit).send run signal = (e.send run signal).retimed r limit := by
  have hinbox : (e.retimed r limit).inbox = e.inbox := rfl
  unfold send
  rw [hinbox]
  split <;> rfl

/-- Registering adds a check behind the others, so that it does not come into the place of one that
is there. -/
theorem register_retimed {c : Check κ} (h : e.definition? r = some c) (g : Nat) (check : Check κ) :
    (e.retimed r limit).register g check = (e.register g check).retimed r limit := by
  rcases e.group?_retimed r limit g with ⟨hnone, hnone'⟩ | ⟨group, checks, hgroup, hlength, hgroup'⟩
  · simp only [register, hnone, hnone']
  · have hadded : (e.retimed r limit).modifyGroup g
        (fun group => { group with checks := group.checks ++ [.fresh check] }) =
          (e.modifyGroup g fun group =>
            { group with checks := group.checks ++ [.fresh check] }).retimed r limit := by
      refine e.modifyGroup_comm fun hg group hthere => ?_
      rw [modify_concat group.checks ?_]
      rw [definition?_eq, checksOf, hthere, Option.map_eq_some_iff] at h
      obtain ⟨registered, hregistered, -⟩ := h
      exact (List.getElem?_eq_some_iff.mp hregistered).1
    simp only [register, hgroup, hgroup', hlength, hadded]
    rfl

end Engine

namespace Action

variable (op : Action κ) {e : Engine κ} {r : CheckRef} (limit : Option Nat)

theorem apply_retimed {c : Check κ} (h : e.definition? r = some c) :
    (op.apply (e.retimed r limit)).2 = (op.apply e).2.retimed r limit := by
  cases op with
  | request op =>
    cases op with
    | write r' level message => exact e.log_retimed r limit r' level message
    | judge r' verdict => exact e.judge_retimed r limit r' verdict
    | abort r' reason =>
      rcases e.check?_retimed r limit r' with ⟨h, h'⟩ | ⟨c, t, h, h'⟩
      · simp only [apply, Request.apply, h, h']
      · simp only [apply, Request.apply, h, h']
        cases c.handle with
        | none => exact e.log_retimed r limit r' _ _
        | some handle => exact e.send_retimed r limit _ _
    | stop g =>
      have htoken : ((e.retimed r limit).group? g).bind Group.token =
          (e.group? g).bind Group.token := by
        rcases e.group?_retimed r limit g with ⟨h, h'⟩ | ⟨group, checks, h, -, h'⟩
        · rw [h, h']
        · rw [h, h']
          rfl
      simp only [apply, Request.apply, htoken]
      cases (e.group? g).bind Group.token <;> rfl
    | register g check => exact e.register_retimed r limit h g check
    | interrupt => exact e.send_retimed r limit _ _
    | _ => rfl
  | setCursor g cursor => exact e.modifyGroup_comm fun _ _ _ => rfl
  | newToken g =>
    have hgroup : (e.retimed r limit).modifyGroup g
        (fun group => { group with token := some e.tokens.length }) =
          (e.modifyGroup g fun group =>
            { group with token := some e.tokens.length }).retimed r limit :=
      e.modifyGroup_comm fun _ _ _ => rfl
    exact congrArg (fun e' : Engine κ => { e' with tokens := e.tokens ++ [false] }) hgroup
  | grant r' handle => exact e.modifyCheck_retimed r limit r' fun _ _ => rfl
  | begin r' =>
    have hbegun := e.modifyCheck_retimed r limit r'
      (f := fun c => { c with status := { c.status with startedAt := some e.now } }) fun _ _ => rfl
    exact congrArg Engine.tick hbegun
  | finish r' =>
    have hended := e.modifyCheck_retimed r limit r'
      (f := fun c => { c with status := { c.status with endedAt := some e.now } }) fun _ _ => rfl
    exact congrArg Engine.tick hended
  | send run signal => exact e.send_retimed r limit run signal
  | _ => rfl

/-- An answer without the time limit of a check, which only the definitions of checks tell. -/
def hide (r : CheckRef) : (op : Action κ) → op.Resp → op.Resp
  | .request (.checks g), checks =>
    if r.group = g then List.modify checks r.index fun c => { c with timeout := none } else checks
  | _, answer => answer

/-- The answers on two engines that differ in the time limit of a check differ in nothing else. -/
theorem hide_apply_retimed (r : CheckRef) :
    op.hide r (op.apply (e.retimed r limit)).1 = op.hide r (op.apply e).1 := by
  cases op with
  | request op =>
    cases op with
    | groupNames =>
      have hnames : (e.retimed r limit).groups.map Group.name =
          (e.groups.map Group.name).modify r.group id := map_modify e.groups r.group fun _ => rfl
      rw [List.modify_id] at hnames
      exact hnames
    | checks g =>
      simp only [hide, apply, Request.apply, e.checks_retimed r limit g]
      split
      · exact List.modify_modify_eq ..
      · rfl
    | status r' =>
      rcases e.check?_retimed r limit r' with ⟨h, h'⟩ | ⟨c, t, h, h'⟩ <;>
        simp only [apply, Request.apply, h, h']
    | log r' =>
      rcases e.check?_retimed r limit r' with ⟨h, h'⟩ | ⟨c, t, h, h'⟩ <;>
        simp only [apply, Request.apply, h, h']
    | abort r' reason =>
      rcases e.check?_retimed r limit r' with ⟨h, h'⟩ | ⟨c, t, h, h'⟩
      · simp only [apply, Request.apply, h, h']
      · simp only [apply, Request.apply, h, h']
        cases c.handle <;> rfl
    | cursor g =>
      rcases e.group?_retimed r limit g with ⟨h, h'⟩ | ⟨group, checks, h, -, h'⟩
      · simp only [apply, Request.apply, h, h']
      · simp only [apply, Request.apply, h, h']
        rfl
    | _ => rfl
  | groupName g =>
    rcases e.group?_retimed r limit g with ⟨h, h'⟩ | ⟨group, checks, h, -, h'⟩ <;>
      simp only [apply, h, h']
  | hooks g =>
    rcases e.group?_retimed r limit g with ⟨h, h'⟩ | ⟨group, checks, h, -, h'⟩ <;>
      simp only [apply, h, h']
  | _ => rfl

end Action

namespace Worker

variable {r : CheckRef}

/-- The program goes on in the same way whatever the time limit of the check is. -/
def Heedless (r : CheckRef) : Worker κ α → Prop
  | Prog.done _ => True
  | Prog.panic _ => True
  | Prog.ask op next => ∀ answer, next answer = next (op.hide r answer) ∧ Heedless r (next answer)

theorem Heedless.bind {p : Worker κ α} {f : α → Worker κ β} (hp : Heedless r p)
    (hf : ∀ value, Heedless r (f value)) : Heedless r (p.bind f) := by
  induction p with
  | done value => exact hf value
  | panic q => trivial
  | ask op next ih =>
    intro answer
    obtain ⟨hsame, hnext⟩ := hp answer
    exact ⟨congrArg (Prog.bind · f) hsame, ih answer hnext⟩

theorem Heedless.guarded {p : Worker κ α} (hp : Heedless r p) : Heedless r p.guarded := by
  induction p with
  | done value => trivial
  | panic q => trivial
  | ask op next ih =>
    intro answer
    obtain ⟨hsame, hnext⟩ := hp answer
    exact ⟨congrArg Prog.guarded hsame, ih answer hnext⟩

theorem heedless_enter (r : CheckRef) (call : Call) : Heedless r (act (κ := κ) (.enter call)) :=
  fun _ => ⟨rfl, trivial⟩

/-- Step by step, such a program does the same whatever the time limit is. -/
theorem Heedless.exec {p : Worker κ α} (hp : Heedless r p) {e : Engine κ} {c : Check κ}
    (h : e.definition? r = some c) (limit : Option Nat) :
    p.exec Action.apply (e.retimed r limit) =
      ((p.exec Action.apply e).1, (p.exec Action.apply e).2.retimed r limit) := by
  induction p generalizing e with
  | done value => rfl
  | panic q => rfl
  | ask op next ih =>
    have hnext : next (op.apply (e.retimed r limit)).1 = next (op.apply e).1 := calc
      next (op.apply (e.retimed r limit)).1
      _ = next (op.hide r (op.apply (e.retimed r limit)).1) := (hp _).1
      _ = next (op.hide r (op.apply e).1) := by rw [op.hide_apply_retimed]
      _ = next (op.apply e).1 := (hp _).1.symm
    rw [Prog.exec, Prog.exec, hnext, op.apply_retimed limit h]
    exact ih _ (hp _).2 (op.grows_apply e r c h)

end Worker

namespace Running

variable {b : Behaviour κ} {r : CheckRef}

theorem heedless_runPhases {id : String} {steps : List (Phase × κ)}
    (h : ∀ called ∈ calling r steps,
      Worker.Heedless r (Worker.ofCallback (b.act called.1 called.2))) :
    Worker.Heedless r (runPhases b r id steps) := by
  induction steps with
  | nil => trivial
  | cons step rest ih =>
    obtain ⟨hstep, hrest⟩ := List.forall_mem_cons.mp h
    obtain ⟨phase, callback⟩ := step
    have hphase : Worker.Heedless r (runPhase b r id phase callback) := by
      refine (Worker.heedless_enter r (phase.call r)).bind fun _ => ?_
      refine hstep.bind ?_
      intro result
      cases result <;> trivial
    refine hphase.bind ?_
    intro result
    cases result with
    | ok value => exact ih hrest
    | error fault => trivial

/-- What the look at the time limit leaves: nothing but the time that it takes, or one warning. -/
inductive ClosedBy (r : CheckRef) (e : Engine κ) : Engine κ → Prop
  | unlimited : ClosedBy r e e
  | inTime : ClosedBy r e e.tick
  | overrun (message : String) : ClosedBy r e (e.tick.log r .warn message)

theorem exec_finish (r : CheckRef) (c : Check κ) (began : Nat) (e : Engine κ) :
    ∃ e', (finish r c began).exec Action.apply e = (.ok (), e') ∧
      ClosedBy r ((Action.finish r).apply e).2 e' := by
  cases htimeout : c.timeout with
  | none =>
    refine ⟨_, ?_, .unlimited⟩
    simp [finish, htimeout, Worker.act, Prog.request, Prog.exec]
  | some limit =>
    simp only [finish, htimeout, Worker.act, Worker.ask, Prog.bind_eq, Prog.request,
      Prog.ask_bind, Prog.done_bind, Prog.exec]
    split
    · exact ⟨_, rfl, .overrun _⟩
    · exact ⟨_, rfl, .inTime⟩

/-- A fit check is begun, its phases are run, and it is finished, whatever the phases came to. -/
theorem exec_run {c : Check κ} {body : κ} (hfault : c.fault = none) (hbody : c.body = some body)
    (e : Engine κ) :
    let ran := (runPhases b r c.id (phases c body)).exec Action.apply ((Action.begin r).apply e).2
    ∃ e', (run b r c).exec Action.apply e = (ran.1, e') ∧
      ClosedBy r ((Action.finish r).apply ran.2).2 e' := by
  intro ran
  obtain ⟨e', hfinish, hclosed⟩ := exec_finish r c e.clock ran.2
  have hguarded : (runPhases b r c.id (phases c body)).guarded.exec Action.apply
      ((Action.begin r).apply e).2 = (.ok ran.1, ran.2) := Prog.exec_guarded ..
  refine ⟨e', ?_, hclosed⟩
  unfold run
  rw [hfault, hbody]
  refine (Prog.exec_bind_of_ok hguarded _).trans ((Prog.exec_bind_of_ok hfinish _).trans ?_)
  cases ran.1 <;> rfl

/-- Two runs of a check with different time limits, which its callbacks do not read, come to the
same on engines that differ in the limit only, and leave engines that differ in the limit only, but
for the looks at it. -/
theorem exec_run_retimed {c : Check κ} {body : κ} (hfault : c.fault = none)
    (hbody : c.body = some body) {e : Engine κ} (h : e.definition? r = some c)
    (hheedless : ∀ called ∈ c.due r body,
      Worker.Heedless r (Worker.ofCallback (b.act called.1 called.2))) (limit : Option Nat) :
    ∃ x ended e₁ e₂, (run b r c).exec Action.apply e = (x, e₁) ∧
      (run b r { c with timeout := limit }).exec Action.apply (e.retimed r limit) = (x, e₂) ∧
      ClosedBy r ended e₁ ∧ ClosedBy r (ended.retimed r limit) e₂ := by
  obtain ⟨e₁, hrun, hclosed⟩ := exec_run (b := b) (r := r) hfault hbody e
  obtain ⟨e₂, hrun', hclosed'⟩ := exec_run (b := b) (r := r) (c := { c with timeout := limit })
    hfault hbody (e.retimed r limit)
  have hbegun := (Action.begin r).grows_apply e r c h
  have hphases : Worker.Heedless r (runPhases b r c.id (phases c body)) :=
    heedless_runPhases (calling_phases c r body ▸ hheedless)
  have hran := hphases.exec hbegun limit
  have hgrown := grows_worker (p := runPhases b r c.id (phases c body)) rfl r c hbegun
  rw [(Action.begin r).apply_retimed limit h] at hrun' hclosed'
  refine ⟨_, _, e₁, e₂, hrun, ?_, hclosed, ?_⟩
  · rw [hrun']
    exact congrArg (·.1, e₂) hran
  · rw [← (Action.finish r).apply_retimed limit hgrown]
    have hclosed' : ClosedBy r ((Action.finish r).apply
        ((runPhases b r c.id (phases c body)).exec Action.apply
          (((Action.begin r).apply e).2.retimed r limit)).2).2 e₂ := hclosed'
    rwa [hran] at hclosed'

end Running

end Conformance
