import Conformance.Proofs.Run.Isolation
import Conformance.Proofs.Run.Interleaving
import Conformance.Proofs.Run.Scheduling

/-!
Stories in which nobody puts an end to the run: no request to abort, no interrupt, nobody from
outside, and no deadline. Then the run and the worker in flight are the only ones to take steps,
each of them waits for the other, and every story either can go on or has come to where the groups
come to when they are run one after the other. No story goes on for ever.
-/
namespace Conformance

open Run Scene

variable {κ α β : Type}

namespace Event

/-- A step of the run or of a worker, neither of somebody outside nor of the clock. -/
def isOwn : Event κ → Bool
  | .main ⟨.await _ _, .abort reason⟩ => reason != timeoutReason
  | .outside _ => false
  | _ => true

/-- The event does not put an end to a run with this deadline, nor shows it to be over. -/
def isCalm (deadline : Option Nat) : Event κ → Bool
  | .main ⟨.act .now, time⟩ => !isPast deadline time
  | .main ⟨.await _ _, wait⟩ => wait != .abort timeoutReason
  | .worker _ ⟨op, _⟩ => op.isCalm
  | .outside _ => false
  | _ => true

end Event

def Story.IsCalm (deadline : Option Nat) (T : Story κ) : Prop :=
  ∀ ev ∈ T, ev.isCalm deadline = true

namespace Scene

/-- The run has not ended, and a step of the run or of a worker can be taken. -/
def IsUnderWay (s : Scene κ α) : Prop :=
  (∃ op next, s.main = .ask op next) ∧ ∃ ev s', ev.isOwn = true ∧ Step s ev s'

variable {s s' : Scene κ α} {T : Story κ}

/-- A story has not begun, or begins with a step. -/
theorem plays_cases (h : Plays s T s') :
    (T = [] ∧ s' = s) ∨ ∃ ev U s₁, T = ev :: U ∧ Step s ev s₁ ∧ Plays s₁ U s' := by
  cases T with
  | nil => exact .inl ⟨rfl, plays_nil h⟩
  | cons ev U =>
    obtain ⟨s₀, s₁, hnothing, hstep, hU⟩ := h.exists_step (T := [])
    obtain rfl := plays_nil hnothing
    exact .inr ⟨ev, U, s₁, rfl, hstep, hU⟩

/-- The workers, the first of which have nothing left to do. -/
def hushed (n : Nat) (ws : List (Worker κ Unit)) : List (Worker κ Unit) :=
  List.replicate n (.done ()) ++ ws.drop n

def hush (n : Nat) (s : Scene κ α) : Scene κ α := { s with workers := hushed n s.workers }

theorem getElem?_hushed {n i : Nat} (h : n ≤ i) (ws : List (Worker κ Unit)) :
    (hushed n ws)[i]? = ws[i]? := by
  have hlength : (List.replicate n (.done () : Worker κ Unit)).length = n := List.length_replicate
  rw [hushed, List.getElem?_append_right (hlength.symm ▸ h), hlength, List.getElem?_drop,
    Nat.add_sub_cancel' h]

theorem le_of_getElem?_hushed {n i : Nat} {ws : List (Worker κ Unit)} {op : Action κ}
    {next : op.Resp → Worker κ Unit} (h : (hushed n ws)[i]? = some (Prog.ask op next)) :
    n ≤ i := by
  by_contra hlt
  rw [hushed, List.getElem?_append_left (by simpa using hlt), List.getElem?_replicate] at h
  split at h <;> cases h

/-- Nobody else can tell that a worker that takes no step has something left to do. -/
theorem Step.hush {ev : Event κ} (h : Step s ev s') {n : Nat} (hn : n ≤ s.workers.length)
    (hidle : ∀ i a, ev = .worker i a → n ≤ i) : Step (s.hush n) ev (s'.hush n) := by
  cases h with
  | @work i op next p ws e hi =>
    have hlate := hidle i _ rfl
    have hstep := Step.work p e ((getElem?_hushed hlate ws).trans hi)
    have hset : (hushed n ws).set i (next (op.apply e).1) =
        hushed n (ws.set i (next (op.apply e).1)) := by
      rw [hushed, List.set_append_right _ _ (by simpa using hlate), hushed, List.drop_set,
        if_neg (by omega), List.length_replicate]
    rw [hset] at hstep
    exact hstep
  | spawn g w next ws e =>
    have hstep := Step.spawn g w next (hushed n ws) e
    rw [hushed, List.append_assoc, ← List.drop_append_of_le_length hn] at hstep
    exact hstep
  | act op next ws e => exact .act op next _ e
  | groupCount next ws e => exact .groupCount next _ e
  | attach next ws e => exact .attach next _ e
  | detach next ws e => exact .detach next _ e
  | await next ws hwait => exact .await next _ hwait
  | timeOut g d next ws e => exact .timeOut g d next _ e
  | outside op p ws e => exact .outside op p _ e

theorem Plays.hush (h : Plays s T s') {n : Nat} (hn : n ≤ s.workers.length)
    (hidle : ∀ i a, Event.worker i a ∈ T → n ≤ i) : Plays (s.hush n) T (s'.hush n) := by
  induction h with
  | start => exact .start _
  | @step s₁ s₂ T ev hplays hstep ih =>
    have hlength := hplays.length_workers
    rw [List.length_append] at hlength
    refine (ih fun i a ha => hidle i a (List.mem_append_left _ ha)).step ?_
    refine hstep.hush (by omega) ?_
    rintro i a rfl
    exact hidle i a (List.mem_append_right _ List.mem_cons_self)

theorem isUnderWay_of_hush {n : Nat} (h : (s.hush n).IsUnderWay) : s.IsUnderWay := by
  obtain ⟨hmain, ev, t, hown, hstep⟩ := h
  refine ⟨hmain, ev, ?_⟩
  obtain ⟨p, ws, e⟩ := s
  rw [Scene.hush] at hstep
  cases hstep with
  | act op next => exact ⟨_, hown, .act op next ws e⟩
  | groupCount next => exact ⟨_, hown, .groupCount next ws e⟩
  | attach next => exact ⟨_, hown, .attach next ws e⟩
  | detach next => exact ⟨_, hown, .detach next ws e⟩
  | spawn g w next => exact ⟨_, hown, .spawn g w next ws e⟩
  | await next _ hwait => exact ⟨_, hown, .await next ws hwait⟩
  | timeOut g d next => exact ⟨_, hown, .timeOut g d next ws e⟩
  | outside op => exact ⟨_, hown, .outside op p ws e⟩
  | work _ _ hi =>
    rw [getElem?_hushed (le_of_getElem?_hushed hi)] at hi
    exact ⟨_, hown, .work p e hi⟩

end Scene

section Finite

/-- One worker has taken a step. -/
inductive Worked : List (Worker κ Unit) → List (Worker κ Unit) → Prop
  | step {ws : List (Worker κ Unit)} {i : Nat} {op : Action κ} {next : op.Resp → Worker κ Unit}
      (h : ws[i]? = some (Prog.ask op next)) (answer : op.Resp) :
      Worked (ws.set i (next answer)) ws

theorem acc_cons (w : Worker κ Unit) {ws : List (Worker κ Unit)} (h : Acc Worked ws) :
    Acc Worked (w :: ws) := by
  -- The worker takes a step, which leaves less of it to do, or one of the others does.
  have hlater {w : Worker κ Unit} (hfirst : ∀ op next, w = Prog.ask op next → ∀ answer ws,
      Acc Worked ws → Acc Worked (next answer :: ws)) {ws : List (Worker κ Unit)}
      (h : Acc Worked ws) : Acc Worked (w :: ws) := by
    induction h with
    | intro ws hws ih =>
      refine .intro _ ?_
      intro vs hworked
      cases hworked with
      | @step _ i op next hi answer =>
        cases i with
        | zero => exact hfirst op next (Option.some.inj hi) answer ws (.intro ws hws)
        | succ i =>
          have hrest : ws[i]? = some (Prog.ask op next) := hi
          exact ih _ (.step hrest answer)
  induction w generalizing ws with
  | done value => exact hlater (fun op next hask => by cases hask) h
  | panic q => exact hlater (fun op next hask => by cases hask) h
  | ask op next ih =>
    refine hlater ?_ h
    intro op' next' hask answer ws h
    cases hask
    exact ih answer h

theorem acc_workers (ws : List (Worker κ Unit)) : Acc Worked ws := by
  induction ws with
  | nil =>
    refine .intro _ ?_
    intro vs hworked
    cases hworked with
    | step hi => cases hi
  | cons w rest ih => exact acc_cons w ih

/-- The run or a worker leads from the other scene to the one, or the clock does. -/
def Scene.Next (s' s : Scene κ α) : Prop := ∃ ev, (∀ a, ev ≠ .outside a) ∧ Step s ev s'

/-- The run and its workers cannot go on for ever, in whatever order they take their steps. -/
theorem Scene.acc_next (s : Scene κ α) : Acc Scene.Next s := by
  have hthere {p : Main κ α} (hfirst : ∀ op next, p = Prog.ask op next → ∀ answer ws e,
      Acc Scene.Next (⟨next answer, ws, e⟩ : Scene κ α)) {ws : List (Worker κ Unit)}
      (h : Acc Worked ws) (e : Engine κ) : Acc Scene.Next (⟨p, ws, e⟩ : Scene κ α) := by
    induction h generalizing e with
    | intro ws _ ih =>
      refine .intro _ ?_
      rintro ⟨p', ws', e'⟩ ⟨ev, hev, hstep⟩
      rcases hstep.main_cases with ⟨op, next, answer, -, hask, hmain⟩ | ⟨hnone, hmain⟩
      · obtain rfl : p' = next answer := hmain
        exact hfirst op next hask answer ws' e'
      · obtain rfl : p' = p := hmain
        rcases hstep.worker_cases with ⟨i, op, next, answer, -, hi, hworkers⟩ | ⟨hidle, -⟩
        · obtain rfl : ws' = ws.set i (next answer) := hworkers
          exact ih _ (.step hi answer) e'
        · cases ev with
          | main a => cases hnone
          | worker i a => simpa [Event.worker?] using hidle i
          | outside a => exact absurd rfl (hev a)
  obtain ⟨p, ws, e⟩ := s
  induction p generalizing ws e with
  | done value => exact hthere (fun op next hask => by cases hask) (acc_workers ws) e
  | panic q => exact hthere (fun op next hask => by cases hask) (acc_workers ws) e
  | ask op next ih =>
    refine hthere ?_ (acc_workers ws) e
    intro op' next' hask answer
    cases hask
    exact ih answer

end Finite

namespace Run

section Calmly

variable {deadline : Option Nat} {e : Engine κ}

/-- Among workers that have nothing left to do, every calm story in which the program is run,
whatever comes after it, is under way, or has come past the program with such a value and such an
engine. -/
def Calmly (deadline : Option Nat) (p : Main κ α) (e : Engine κ)
    (Q : α → Engine κ → Prop) : Prop :=
  ∀ (β : Type) (f : α → Main κ β) (ws : List (Worker κ Unit)) (T : Story κ) (s : Scene κ β),
    AllFinished ws → Plays ⟨p.bind f, ws, e⟩ T s → T.IsCalm deadline →
    s.IsUnderWay ∨ ∃ value e' vs U, Q value e' ∧ AllFinished vs ∧ U.IsCalm deadline ∧
      Plays ⟨f value, vs, e'⟩ U s

theorem calmly_done {value : α} {Q : α → Engine κ → Prop} (h : Q value e) :
    Calmly deadline (.done value) e Q :=
  fun _ _ ws T _ hws hplays hcalm => .inr ⟨value, e, ws, T, h, hws, hcalm, hplays⟩

theorem Calmly.bind {p : Main κ α} {f : α → Main κ β} {Q : α → Engine κ → Prop}
    {R : β → Engine κ → Prop} (hp : Calmly deadline p e Q)
    (hf : ∀ value e', Q value e' → Calmly deadline (f value) e' R) :
    Calmly deadline (p.bind f) e R := by
  intro γ k ws T s hws hplays hcalm
  rw [Prog.bind_assoc] at hplays
  rcases hp γ _ ws T s hws hplays hcalm with hgoing | ⟨value, e', vs, U, hQ, hvs, hU, hrest⟩
  · exact .inl hgoing
  · exact hf value e' hQ γ k vs U s hvs hrest hU

theorem Calmly.mono {p : Main κ α} {Q R : α → Engine κ → Prop} (h : Calmly deadline p e Q)
    (hQ : ∀ value e', Q value e' → R value e') : Calmly deadline p e R := by
  have hthen := h.bind (f := .done) fun value e' hvalue => calmly_done (hQ value e' hvalue)
  rwa [Prog.bind_done] at hthen

/-- Where the workers have nothing left to do, a calm step is one of the run. -/
theorem exists_main_of_step {p : Main κ α} {ws : List (Worker κ Unit)} {ev : Event κ}
    {s : Scene κ α} (hws : AllFinished ws) (hcalm : ev.isCalm deadline = true)
    (h : Step ⟨p, ws, e⟩ ev s) : ∃ a, ev = .main a := by
  cases h with
  | work p e hi => cases hws _ (List.mem_of_getElem? hi)
  | outside => cases hcalm
  | _ => exact ⟨_, rfl⟩

/-- A step that the run can take at once, and that it cannot but take. -/
theorem calmly_ask {op : Move κ} {next : op.Resp → Main κ α} {answer : op.Resp} {e' : Engine κ}
    {Q : α → Engine κ → Prop} (hown : (Event.main ⟨op, answer⟩).isOwn = true)
    (hcan : ∀ (β : Type) (k : op.Resp → Main κ β) ws,
      Step ⟨.ask op k, ws, e⟩ (.main ⟨op, answer⟩) ⟨k answer, ws, e'⟩)
    (hmust : ∀ (β : Type) (k : op.Resp → Main κ β) ws a s,
      Step ⟨.ask op k, ws, e⟩ (.main a) s → a = ⟨op, answer⟩ ∧ s = ⟨k answer, ws, e'⟩)
    (h : (Event.main ⟨op, answer⟩).isCalm deadline = true → Calmly deadline (next answer) e' Q) :
    Calmly deadline (.ask op next) e Q := by
  intro β f ws T s hws hplays hcalm
  rcases plays_cases hplays with ⟨rfl, rfl⟩ | ⟨ev, U, s₁, rfl, hstep, hU⟩
  · exact .inl ⟨⟨op, _, rfl⟩, _, _, hown, hcan β _ ws⟩
  · obtain ⟨hev, hrest⟩ := List.forall_mem_cons.mp hcalm
    obtain ⟨a, rfl⟩ := exists_main_of_step hws hev hstep
    obtain ⟨rfl, rfl⟩ := hmust β _ ws a s₁ hstep
    exact h hev β f ws U s hws hU hrest

/-- What the run can do without anybody else. -/
def IsPlain : Move κ → Prop
  | .spawn .. | .await .. => False
  | _ => True

theorem calmly_act {op : Action κ} {next : op.Resp → Main κ α} {Q : α → Engine κ → Prop}
    (h : (Event.main ⟨.act op, (op.apply e).1⟩).isCalm deadline = true →
      Calmly deadline (next (op.apply e).1) (op.apply e).2 Q) :
    Calmly deadline (.ask (.act op) next) e Q := by
  refine calmly_ask rfl (fun β k ws => .act op k ws e) ?_ h
  intro β k ws a s hstep
  cases hstep
  exact ⟨rfl, rfl⟩

theorem calmly_act_bind {op : Action κ} {f : op.Resp → Main κ α} {Q : α → Engine κ → Prop}
    (h : (Event.main ⟨.act op, (op.apply e).1⟩).isCalm deadline = true →
      Calmly deadline (f (op.apply e).1) (op.apply e).2 Q) :
    Calmly deadline ((act op).bind f) e Q := calmly_act h

/-- A program that waits for nobody comes to what it comes to by the clock. -/
theorem calmly_plain {p : Main κ α} (hp : p.Only IsPlain) {value : α} {e' : Engine κ}
    (h : Schedule.drive p [] e = (.ok value, [], e')) :
    Calmly deadline p e fun v u => v = value ∧ u = e' := by
  induction p generalizing e with
  | done v =>
    cases h
    exact calmly_done ⟨rfl, rfl⟩
  | panic q => cases h
  | ask op next ih =>
    have hlater {answer : op.Resp} {u : Engine κ}
        (h : Schedule.drive (next answer) [] u = (.ok value, [], e')) :=
      ih answer (hp.2 answer) h
    cases op with
    | act op => exact calmly_act fun _ => hlater h
    | groupCount =>
      refine calmly_ask rfl (fun β k ws => .groupCount k ws e) ?_ fun _ => hlater h
      intro β k ws a s hstep
      cases hstep
      exact ⟨rfl, rfl⟩
    | attach =>
      refine calmly_ask rfl (fun β k ws => .attach k ws e) ?_ fun _ => hlater h
      intro β k ws a s hstep
      cases hstep
      exact ⟨rfl, rfl⟩
    | detach =>
      refine calmly_ask rfl (fun β k ws => .detach k ws e) ?_ fun _ => hlater h
      intro β k ws a s hstep
      cases hstep
      exact ⟨rfl, rfl⟩
    | spawn => exact absurd hp.1 id
    | await => exact absurd hp.1 id

/-- A callback comes to what it comes to alone. -/
theorem calmly_ofCallback {p : Callback κ α} (hp : p.NeverPanics) :
    Calmly deadline (ofCallback p) e fun v u => p.exec Request.apply e = (.ok v, u) := by
  obtain ⟨value, e', hexec⟩ : ∃ value e', p.exec Request.apply e = (.ok value, e') := hp.exec e
  have hdrive : Schedule.drive (ofCallback p) [] e = (.ok value, [], e') := by
    rw [drive_ofCallback, hexec]
  have hplain : (ofCallback p).Only IsPlain := by
    refine Prog.only_lift ?_ p
    intro op
    trivial
  intro β f ws T s hws hplays hcalm
  refine (calmly_plain hplain hdrive β f ws T s hws hplays hcalm).imp_right ?_
  rintro ⟨v, u, vs, U, ⟨rfl, rfl⟩, hrest⟩
  exact ⟨v, u, vs, U, hexec, hrest⟩

end Calmly

section Waiting

variable {deadline : Option Nat}

theorem inbox_apply {op : Action κ} (hsilent : op.IsSilent) (hcalm : op.isCalm = true)
    (e : Engine κ) : (op.apply e).2.inbox = e.inbox := by
  cases op with
  | request op =>
    cases op with
    | judge r verdict => exact e.inbox_judge r verdict
    | register g check => exact e.inbox_register g check
    | abort => cases hcalm
    | interrupt => cases hcalm
    | stop g =>
      simp only [Action.apply, Request.apply]
      split <;> rfl
    | _ => rfl
  | send => exact absurd hsilent id
  | _ => rfl

/-- A completion that has come in ends the wait. -/
theorem calm_accept {g : Nat} {outcome : Outcome} {f : Wait → Main κ β} {vs : List (Worker κ Unit)}
    (hvs : AllFinished vs) {e : Engine κ} (hsignals : e.inbox.signals = [.done g outcome])
    {T : Story κ} {s : Scene κ β} (hplays : Plays ⟨.ask (.await g deadline) f, vs, e⟩ T s)
    (hcalm : T.IsCalm deadline) :
    s.IsUnderWay ∨ ∃ U, U.IsCalm deadline ∧
      Plays ⟨f (.done outcome), vs, { e with inbox := { e.inbox with signals := [] } }⟩ U s := by
  have hawait : awaitGroup g e.inbox.signals = some (.done outcome, []) := by
    rw [hsignals, awaitGroup, Signal.ends, if_pos rfl]
  rcases plays_cases hplays with ⟨rfl, rfl⟩ | ⟨ev, U, s₁, rfl, hstep, hU⟩
  · exact .inl ⟨⟨_, _, rfl⟩, _, _, rfl, .await f vs hawait⟩
  · obtain ⟨hev, hrest⟩ := List.forall_mem_cons.mp hcalm
    obtain ⟨a, rfl⟩ := exists_main_of_step hvs hev hstep
    cases hstep with
    | await next ws hsignal =>
      rw [hawait] at hsignal
      cases hsignal
      exact .inr ⟨U, hrest, hU⟩
    | timeOut => simp [Event.isCalm] at hev

/-- The run waits for the only worker that has something left to do, which tells of its completion
at its end. -/
theorem calm_wait {run g : Nat} {f : Wait → Main κ β} {ws : List (Worker κ Unit)}
    (hws : AllFinished ws) {r : Worker κ Outcome} (hr : r.Only Action.IsSilent)
    (hsafe : r.NeverPanics) {e : Engine κ} (hinbox : e.inbox = ⟨run, true, []⟩) {T : Story κ}
    {s : Scene κ β} (hplays : Plays ⟨.ask (.await g deadline) f,
      ws ++ [r.bind fun outcome => Worker.act (.send run (.done g outcome))], e⟩ T s)
    (hcalm : T.IsCalm deadline) :
    s.IsUnderWay ∨ ∃ outcome e' vs U, r.exec Action.apply e = (.ok outcome, e') ∧
      (∀ a ∈ r.trail Action.apply e, a.1.isCalm = true) ∧ AllFinished vs ∧
      U.IsCalm deadline ∧ Plays ⟨f (.done outcome), vs, e'⟩ U s := by
  -- With nothing in the inbox, only the worker can take a step, and it can unless it has ended.
  have hfirst {w : Worker κ Unit} {e : Engine κ} (hinbox : e.inbox = ⟨run, true, []⟩) {ev : Event κ}
      {s : Scene κ β} (hev : ev.isCalm deadline = true)
      (hstep : Step ⟨.ask (.await g deadline) f, ws ++ [w], e⟩ ev s) :
      ∃ op next, w = Prog.ask op next ∧ op.isCalm = true ∧
        s = ⟨.ask (.await g deadline) f, ws ++ [next (op.apply e).1], (op.apply e).2⟩ := by
    cases hstep with
    | await next ws hsignal =>
      rw [hinbox] at hsignal
      cases hsignal
    | timeOut => simp [Event.isCalm] at hev
    | outside => cases hev
    | @work i op next _ _ _ hi =>
      rcases Nat.lt_trichotomy i ws.length with hlt | rfl | hgt
      · rw [List.getElem?_append_left hlt] at hi
        cases hws _ (List.mem_of_getElem? hi)
      · rw [List.getElem?_concat_length] at hi
        refine ⟨op, next, Option.some.inj hi, hev, ?_⟩
        simp
      · have hout : (ws ++ [w]).length ≤ i := by
          rw [List.length_append]
          exact hgt
        rw [List.getElem?_eq_none hout] at hi
        cases hi
  have hcan {op : Action κ} {next : op.Resp → Worker κ Unit} {e : Engine κ} :
      Scene.IsUnderWay
        (⟨.ask (.await g deadline) f, ws ++ [Prog.ask op next], e⟩ : Scene κ β) :=
    ⟨⟨_, _, rfl⟩, _, _, rfl, .work _ e List.getElem?_concat_length⟩
  induction r generalizing e T with
  | done outcome =>
    rcases plays_cases hplays with ⟨rfl, rfl⟩ | ⟨ev, U, s₁, rfl, hstep, hU⟩
    · exact .inl hcan
    · obtain ⟨hev, hrest⟩ := List.forall_mem_cons.mp hcalm
      obtain ⟨op, next, hask, -, rfl⟩ := hfirst hinbox hev hstep
      cases hask
      have hsent : (e.send run (.done g outcome)).inbox = ⟨run, true, [.done g outcome]⟩ := by
        simp [Engine.send, hinbox]
      have hback : { e.send run (.done g outcome) with
          inbox := { (e.send run (.done g outcome)).inbox with signals := [] } } = e := by
        obtain ⟨groups, registered, inbox, tokens, clock, history⟩ := e
        obtain rfl : inbox = ⟨run, true, []⟩ := hinbox
        simp [Engine.send]
      have hdone : AllFinished (ws ++ [.done ()]) :=
        List.forall_mem_append.mpr ⟨hws, List.forall_mem_singleton.mpr rfl⟩
      refine (calm_accept hdone (congrArg Inbox.signals hsent) hU hrest).imp_right ?_
      rintro ⟨V, hV, hlater⟩
      exact ⟨outcome, e, _, V, rfl, List.forall_mem_nil _, hdone, hV, hback ▸ hlater⟩
  | panic q => exact absurd hsafe id
  | ask op next ih =>
    rcases plays_cases hplays with ⟨rfl, rfl⟩ | ⟨ev, U, s₁, rfl, hstep, hU⟩
    · exact .inl hcan
    · obtain ⟨hev, hrest⟩ := List.forall_mem_cons.mp hcalm
      obtain ⟨op', next', hask, hquiet, rfl⟩ := hfirst hinbox hev hstep
      cases hask
      have hsame := (inbox_apply hr.1 hquiet e).trans hinbox
      refine (ih _ (hr.2 _) (hsafe _) hsame hU hrest).imp_right ?_
      rintro ⟨outcome, e', vs, V, hexec, htrail, hlater⟩
      refine ⟨outcome, e', vs, V, hexec, ?_, hlater⟩
      exact List.forall_mem_cons.mpr ⟨hquiet, htrail⟩

end Waiting

end Run

end Conformance
