import Conformance.Proofs.Program.Reach
import Conformance.Proofs.Run.Marks
import Conformance.Proofs.Run.Standing
import Conformance.Run.Schedule
import Mathlib.Data.List.Induction

/-!
Runs in which everyone takes turns as they like: the thread that runs all groups, the workers that
it has spawned, and anyone else who asks something of the engine. A scene shows what each of them
has still to do and the engine that they share, an event is one step with its answer, and a story
is a row of events. The deadline may pass while the run waits, whether or not a signal has come in.
A run by the clock is one of these stories.
-/
namespace Conformance

variable {κ α : Type}

structure Scene (κ α : Type) where
  main : Main κ α
  workers : List (Worker κ Unit)
  engine : Engine κ

inductive Event (κ : Type) where
  | main (a : Prog.Exchange (@Move.Resp κ))
  | worker (index : Nat) (a : Prog.Exchange (@Action.Resp κ))
  | outside (a : Prog.Exchange (@Request.Resp κ))

abbrev Story (κ : Type) := List (Event κ)

namespace Event

def main? : Event κ → Option (Prog.Exchange (@Move.Resp κ))
  | main a => some a
  | _ => none

def worker? (i : Nat) : Event κ → Option (Prog.Exchange (@Action.Resp κ))
  | worker j a => if j = i then some a else none
  | _ => none

def spawned? : Event κ → Option (Worker κ Unit)
  | main ⟨.spawn _ w, _⟩ => some w
  | _ => none

/-- The operation on the engine that an event is, whoever asked for it. -/
def action? : Event κ → Option (Prog.Exchange (@Action.Resp κ))
  | main ⟨.act op, answer⟩ => some ⟨op, answer⟩
  | main _ => none
  | worker _ a => some a
  | outside ⟨op, answer⟩ => some ⟨.request op, answer⟩

/-- The verdict on a check that an event brings, whoever has come to it. -/
def verdictOn? (r : CheckRef) (ev : Event κ) : Option Verdict :=
  ev.action?.bind fun a => a.1.verdictOn? r

end Event

namespace Story

def mainTrail (T : Story κ) : List (Prog.Exchange (@Move.Resp κ)) := T.filterMap Event.main?

def workerTrail (i : Nat) (T : Story κ) : List (Prog.Exchange (@Action.Resp κ)) :=
  T.filterMap (Event.worker? i)

/-- The workers that have been spawned, in order. -/
def spawned (T : Story κ) : List (Worker κ Unit) := T.filterMap Event.spawned?

/-- The operations on the engine, in order. -/
def actions (T : Story κ) : List (Prog.Exchange (@Action.Resp κ)) := T.filterMap Event.action?

variable (T U : Story κ) (ev : Event κ) (i : Nat)

theorem filterMap_concat {β : Type} (f : Event κ → Option β) :
    (T ++ [ev]).filterMap f = T.filterMap f ++ (f ev).toList := by
  rw [List.filterMap_append]
  cases hev : f ev with
  | none => rw [List.filterMap_cons_none hev]; rfl
  | some a => rw [List.filterMap_cons_some hev]; rfl

theorem mainTrail_concat : (T ++ [ev]).mainTrail = T.mainTrail ++ ev.main?.toList :=
  T.filterMap_concat ev _

theorem workerTrail_concat :
    (T ++ [ev]).workerTrail i = T.workerTrail i ++ (ev.worker? i).toList :=
  T.filterMap_concat ev _

theorem workerTrail_append (T U : Story κ) (i : Nat) :
    workerTrail i (T ++ U) = T.workerTrail i ++ U.workerTrail i := List.filterMap_append

theorem spawned_concat : (T ++ [ev]).spawned = T.spawned ++ ev.spawned?.toList :=
  T.filterMap_concat ev _

theorem actions_concat : (T ++ [ev]).actions = T.actions ++ ev.action?.toList :=
  T.filterMap_concat ev _

theorem actions_append (T U : Story κ) : actions (T ++ U) = T.actions ++ U.actions :=
  List.filterMap_append

variable {T i}

/-- A story can be cut wherever the trail of the main thread is. -/
theorem exists_split_of_mainTrail {t u : List (Prog.Exchange (@Move.Resp κ))}
    (h : T.mainTrail = t ++ u) :
    ∃ U V : Story κ, T = U ++ V ∧ U.mainTrail = t ∧ V.mainTrail = u :=
  List.filterMap_eq_append_iff.mp h

/-- Whatever the thread that runs all groups does is an event of the story. -/
theorem exists_event_of_mainTrail {t u : List (Prog.Exchange (@Move.Resp κ))}
    {a : Prog.Exchange (@Move.Resp κ)} (h : T.mainTrail = t ++ a :: u) :
    ∃ U V : Story κ, T = U ++ .main a :: V ∧ U.mainTrail = t ∧ V.mainTrail = u := by
  obtain ⟨U, rest, rfl, rfl, hrest⟩ := exists_split_of_mainTrail h
  obtain ⟨others, ev, V, rfl, hothers, hev, hV⟩ := List.filterMap_eq_cons_iff.mp hrest
  cases ev with
  | main b =>
    cases hev
    refine ⟨U ++ others, V, (List.append_assoc ..).symm, ?_, hV⟩
    rw [mainTrail, List.filterMap_append, List.filterMap_eq_nil_iff.mpr hothers,
      List.append_nil]
    rfl
  | worker => cases hev
  | outside => cases hev

theorem mem_mainTrail {a : Prog.Exchange (@Move.Resp κ)} (h : Event.main a ∈ T) :
    a ∈ T.mainTrail := List.mem_filterMap.mpr ⟨_, h, rfl⟩

theorem exists_spawn {w : Worker κ Unit} (h : w ∈ T.spawned) :
    ∃ g, ⟨.spawn g w, ()⟩ ∈ T.mainTrail := by
  obtain ⟨ev, hev, hspawn⟩ := List.mem_filterMap.mp h
  cases ev with
  | main a =>
    obtain ⟨op, answer⟩ := a
    cases op with
    | spawn g v =>
      cases hspawn
      exact ⟨g, mem_mainTrail hev⟩
    | _ => cases hspawn
  | worker => cases hspawn
  | outside => cases hspawn

theorem mem_of_mainTrail {a : Prog.Exchange (@Move.Resp κ)} (h : a ∈ T.mainTrail) :
    Event.main a ∈ T := by
  obtain ⟨ev, hmem, hev⟩ := List.mem_filterMap.mp h
  cases ev with
  | main b =>
    cases hev
    exact hmem
  | worker => cases hev
  | outside => cases hev

theorem mem_workerTrail {a : Prog.Exchange (@Action.Resp κ)} (h : Event.worker i a ∈ T) :
    a ∈ T.workerTrail i := List.mem_filterMap.mpr ⟨_, h, by simp [Event.worker?]⟩

theorem mem_of_workerTrail {a : Prog.Exchange (@Action.Resp κ)}
    (h : a ∈ T.workerTrail i) : Event.worker i a ∈ T := by
  obtain ⟨ev, hmem, hev⟩ := List.mem_filterMap.mp h
  cases ev with
  | worker j b =>
    simp only [Event.worker?] at hev
    split at hev
    · rename_i hj
      cases hev
      exact hj ▸ hmem
    · cases hev
  | main => cases hev
  | outside => cases hev

theorem mem_actions {a : Prog.Exchange (@Action.Resp κ)} (h : a ∈ T.workerTrail i) :
    a ∈ T.actions := List.mem_filterMap.mpr ⟨_, mem_of_workerTrail h, rfl⟩

end Story

namespace Scene

inductive Step : Scene κ α → Event κ → Scene κ α → Prop
  | act (op : Action κ) (next : op.Resp → Main κ α) (ws : List (Worker κ Unit)) (e : Engine κ) :
      Step ⟨.ask (.act op) next, ws, e⟩ (.main ⟨.act op, (op.apply e).1⟩)
        ⟨next (op.apply e).1, ws, (op.apply e).2⟩
  | groupCount (next : Nat → Main κ α) (ws : List (Worker κ Unit)) (e : Engine κ) :
      Step ⟨.ask .groupCount next, ws, e⟩ (.main ⟨.groupCount, e.groups.length⟩)
        ⟨next e.groups.length, ws, e⟩
  | attach (next : Nat → Main κ α) (ws : List (Worker κ Unit)) (e : Engine κ) :
      Step ⟨.ask .attach next, ws, e⟩ (.main ⟨.attach, e.inbox.run + 1⟩)
        ⟨next (e.inbox.run + 1), ws, e.attach⟩
  | detach (next : Unit → Main κ α) (ws : List (Worker κ Unit)) (e : Engine κ) :
      Step ⟨.ask .detach next, ws, e⟩ (.main ⟨.detach, ()⟩) ⟨next (), ws, e.detach⟩
  | spawn (g : Nat) (w : Worker κ Unit) (next : Unit → Main κ α) (ws : List (Worker κ Unit))
      (e : Engine κ) :
      Step ⟨.ask (.spawn g w) next, ws, e⟩ (.main ⟨.spawn g w, ()⟩) ⟨next (), ws ++ [w], e⟩
  | await {g : Nat} {deadline : Option Nat} (next : Wait → Main κ α) (ws : List (Worker κ Unit))
      {e : Engine κ} {wait : Wait} {signals : List Signal}
      (h : awaitGroup g e.inbox.signals = some (wait, signals)) :
      Step ⟨.ask (.await g deadline) next, ws, e⟩ (.main ⟨.await g deadline, wait⟩)
        ⟨next wait, ws, { e with inbox := { e.inbox with signals := signals } }⟩
  | timeOut (g d : Nat) (next : Wait → Main κ α) (ws : List (Worker κ Unit)) (e : Engine κ) :
      Step ⟨.ask (.await g (some d)) next, ws, e⟩
        (.main ⟨.await g (some d), .abort timeoutReason⟩)
        ⟨next (.abort timeoutReason), ws, { e with clock := max e.clock d }⟩
  | work {i : Nat} {op : Action κ} {next : op.Resp → Worker κ Unit} (p : Main κ α)
      {ws : List (Worker κ Unit)} (e : Engine κ) (h : ws[i]? = some (Prog.ask op next)) :
      Step ⟨p, ws, e⟩ (.worker i ⟨op, (op.apply e).1⟩)
        ⟨p, ws.set i (next (op.apply e).1), (op.apply e).2⟩
  | outside (op : Request κ) (p : Main κ α) (ws : List (Worker κ Unit)) (e : Engine κ) :
      Step ⟨p, ws, e⟩ (.outside ⟨op, (op.apply e).1⟩) ⟨p, ws, (op.apply e).2⟩

/-- The story leads from the one scene to the other. -/
inductive Plays : Scene κ α → Story κ → Scene κ α → Prop
  | start (s : Scene κ α) : Plays s [] s
  | step {s s' s'' : Scene κ α} {T : Story κ} {ev : Event κ} (h : Plays s T s')
      (hstep : Step s' ev s'') : Plays s (T ++ [ev]) s''

variable {s s' s'' : Scene κ α} {T U : Story κ} {ev : Event κ}

theorem Plays.trans (h : Plays s T s') (h' : Plays s' U s'') : Plays s (T ++ U) s'' := by
  induction h' with
  | start => rwa [List.append_nil]
  | step _ hstep ih =>
    rw [← List.append_assoc]
    exact .step ih hstep

theorem plays_nil (h : Plays s [] s') : s' = s := by
  generalize hT : ([] : Story κ) = T at h
  cases h with
  | start => rfl
  | step => simp at hT

theorem exists_step_of_snoc (h : Plays s (T ++ [ev]) s'') :
    ∃ s', Plays s T s' ∧ Step s' ev s'' := by
  generalize hU : T ++ [ev] = U at h
  cases h with
  | start => simp at hU
  | step h hstep =>
    obtain ⟨rfl, hlast⟩ := List.append_inj' hU rfl
    cases hlast
    exact ⟨_, h, hstep⟩

/-- A story can be told up to any of its events. -/
theorem Plays.split (h : Plays s (T ++ U) s'') : ∃ s', Plays s T s' ∧ Plays s' U s'' := by
  induction U using List.reverseRecOn generalizing s'' with
  | nil =>
    rw [List.append_nil] at h
    exact ⟨s'', h, .start s''⟩
  | append_singleton U ev ih =>
    rw [← List.append_assoc] at h
    obtain ⟨s₁, hbefore, hstep⟩ := exists_step_of_snoc h
    obtain ⟨s', hT, hU⟩ := ih hbefore
    exact ⟨s', hT, .step hU hstep⟩

theorem Plays.exists_step (h : Plays s (T ++ ev :: U) s'') :
    ∃ s₁ s₂, Plays s T s₁ ∧ Step s₁ ev s₂ ∧ Plays s₂ U s'' := by
  rw [List.append_cons] at h
  obtain ⟨s₂, hfirst, hU⟩ := h.split
  obtain ⟨s₁, hT, hstep⟩ := exists_step_of_snoc hfirst
  exact ⟨s₁, s₂, hT, hstep, hU⟩

/-- The engine takes in a whole operation, or something is changed about its inbox and its clock. -/
theorem Step.engine_cases (h : Step s ev s') :
    (∃ a, ev.action? = some a ∧ a.2 = (a.1.apply s.engine).1 ∧
      s'.engine = (a.1.apply s.engine).2) ∨
      (ev.action? = none ∧ ∃ inbox clock,
        s'.engine = { s.engine with inbox := inbox, clock := clock }) := by
  cases h with
  | act op => exact .inl ⟨⟨op, _⟩, rfl, rfl, rfl⟩
  | work p e => exact .inl ⟨⟨_, _⟩, rfl, rfl, rfl⟩
  | outside op => exact .inl ⟨⟨.request op, _⟩, rfl, rfl, rfl⟩
  | _ => exact .inr ⟨rfl, _, _, rfl⟩

theorem Step.main_cases (h : Step s ev s') :
    (∃ op next answer, ev.main? = some ⟨op, answer⟩ ∧ s.main = .ask op next ∧
      s'.main = next answer) ∨ (ev.main? = none ∧ s'.main = s.main) := by
  cases h with
  | work p e => exact .inr ⟨rfl, rfl⟩
  | outside op => exact .inr ⟨rfl, rfl⟩
  | _ => exact .inl ⟨_, _, _, rfl, rfl, rfl⟩

/-- What becomes of the workers: one takes a step, a new one comes after them, or nothing. -/
theorem Step.worker_cases (h : Step s ev s') :
    (∃ i op next answer, ev = .worker i ⟨op, answer⟩ ∧ s.workers[i]? = some (Prog.ask op next) ∧
      s'.workers = s.workers.set i (next answer)) ∨
      ((∀ i, ev.worker? i = none) ∧ s'.workers = s.workers ++ ev.spawned?.toList) := by
  cases h with
  | work p e h => exact .inl ⟨_, _, _, _, rfl, h, rfl⟩
  | spawn => exact .inr ⟨fun _ => rfl, rfl⟩
  | _ => exact .inr ⟨fun _ => rfl, (List.append_nil _).symm⟩

theorem Plays.main_reaches (h : Plays s T s') : s.main.Reaches T.mainTrail s'.main := by
  induction h with
  | start => exact .start _
  | @step s₁ s₂ T ev _ hstep ih =>
    rw [T.mainTrail_concat]
    rcases hstep.main_cases with ⟨op, next, answer, hev, hmain, hnext⟩ | ⟨hev, hsame⟩
    · rw [hmain] at ih
      rw [hev, hnext]
      exact ih.snoc answer
    · rwa [hev, hsame, Option.toList_none, List.append_nil]

/-- What a worker has done since it was spawned, if it was. -/
inductive Follows : List (Prog.Exchange (@Action.Resp κ)) → Option (Worker κ Unit) →
    Option (Worker κ Unit) → Prop
  | absent : Follows [] none none
  | there {t : List (Prog.Exchange (@Action.Resp κ))} {w q : Worker κ Unit}
      (h : w.Reaches t q) : Follows t (some w) (some q)

theorem Plays.length_workers (h : Plays s T s') :
    s'.workers.length = (s.workers ++ T.spawned).length := by
  induction h with
  | start => rw [Story.spawned, List.filterMap_nil, List.append_nil]
  | @step s₁ s₂ T ev _ hstep ih =>
    rw [T.spawned_concat, ← List.append_assoc, List.length_append]
    rcases hstep.worker_cases with ⟨i, op, next, answer, rfl, -, hworkers⟩ | ⟨-, hworkers⟩
    · rw [hworkers, List.length_set, ih]
      rfl
    · rw [hworkers, List.length_append, ih]

theorem Plays.follows (h : Plays s T s') (i : Nat) :
    Follows (T.workerTrail i) (s.workers ++ T.spawned)[i]? s'.workers[i]? := by
  induction h with
  | start =>
    rw [Story.workerTrail, Story.spawned, List.filterMap_nil, List.filterMap_nil, List.append_nil]
    cases s.workers[i]? with
    | none => exact .absent
    | some w => exact .there (.start w)
  | @step s₁ s₂ T ev hplays hstep ih =>
    have hlength := hplays.length_workers
    rw [T.workerTrail_concat, T.spawned_concat, ← List.append_assoc]
    rcases hstep.worker_cases with ⟨j, op, next, answer, rfl, hj, hworkers⟩ | ⟨hnone, hworkers⟩
    · have hspawned : (Event.worker j ⟨op, answer⟩).spawned?.toList = [] := rfl
      rw [hworkers, hspawned, List.append_nil]
      by_cases hij : j = i
      · subst hij
        have hlt : j < s₁.workers.length := (List.getElem?_eq_some_iff.mp hj).1
        rw [List.getElem?_set_self hlt]
        rw [hj] at ih
        generalize (s.workers ++ T.spawned)[j]? = w? at ih ⊢
        generalize T.workerTrail j = t at ih ⊢
        cases ih with
        | there h => simpa [Event.worker?] using Follows.there (h.snoc answer)
      · rw [List.getElem?_set_ne hij]
        simpa [Event.worker?, hij] using ih
    · rw [hnone, hworkers, Option.toList_none, List.append_nil]
      rcases Nat.lt_or_ge i s₁.workers.length with hlt | hge
      · rwa [List.getElem?_append_left hlt, List.getElem?_append_left (hlength ▸ hlt)]
      · rw [List.getElem?_append_right hge, List.getElem?_append_right (hlength ▸ hge), hlength]
        rw [List.getElem?_eq_none hge, List.getElem?_eq_none (hlength ▸ hge)] at ih
        generalize T.workerTrail i = t at ih ⊢
        cases ih with
        | absent =>
          cases (ev.spawned?.toList)[i - (s.workers ++ T.spawned).length]? with
          | none => exact .absent
          | some w => exact .there (.start w)

theorem Plays.reaches_of_mem (h : Plays s T s') {i : Nat}
    {a : Prog.Exchange (@Action.Resp κ)} (ha : Event.worker i a ∈ T) :
    ∃ w q, (s.workers ++ T.spawned)[i]? = some w ∧ w.Reaches (T.workerTrail i) q := by
  have hmem : a ∈ T.workerTrail i :=
    List.mem_filterMap.mpr ⟨.worker i a, ha, by simp [Event.worker?]⟩
  have hfollows := h.follows i
  generalize (s.workers ++ T.spawned)[i]? = w? at hfollows ⊢
  generalize s'.workers[i]? = q? at hfollows
  generalize T.workerTrail i = t at hfollows hmem ⊢
  cases hfollows with
  | absent => cases hmem
  | there h => exact ⟨_, _, rfl, h⟩

section Workers

variable {P : Action κ → Prop}

/-- Workers ask for nothing but what all of them are bound to when they begin. -/
theorem Plays.of_worker (h : Plays s T s') (hws : ∀ w ∈ s.workers, w.Only P)
    (hspawned : ∀ w ∈ T.spawned, w.Only P) {i : Nat} {a : Prog.Exchange (@Action.Resp κ)}
    (ha : Event.worker i a ∈ T) : P a.1 := by
  obtain ⟨w, q, hw, hreaches⟩ := h.reaches_of_mem ha
  have honly := List.forall_mem_append.mpr ⟨hws, hspawned⟩ w (List.mem_of_getElem? hw)
  exact honly.reaches hreaches a (Story.mem_workerTrail ha)

/-- What no worker asks for at the beginning nobody asks for who is left over. -/
theorem Plays.only (h : Plays s T s') (hws : ∀ w ∈ s.workers, w.Only P)
    (hspawned : ∀ w ∈ T.spawned, w.Only P) : ∀ w ∈ s'.workers, w.Only P := by
  intro w hw
  obtain ⟨i, hi⟩ := List.getElem?_of_mem hw
  have hfollows := h.follows i
  rw [hi] at hfollows
  generalize hfirst : (s.workers ++ T.spawned)[i]? = w₀ at hfollows
  generalize T.workerTrail i = t at hfollows
  cases hfollows with
  | there hreaches =>
    have hmem := List.mem_of_getElem? hfirst
    exact (List.forall_mem_append.mpr ⟨hws, hspawned⟩ _ hmem).rest hreaches

end Workers

section Effects

variable {K : Engine κ → Engine κ → Prop}

/-- What every operation of a story does to the engine the whole story does. -/
theorem Plays.effect (hK : Prog.IsEffect K)
    (hinbox : ∀ e inbox clock, K e { e with inbox := inbox, clock := clock })
    (h : Plays s T s') (hop : ∀ a ∈ T.actions, ∀ e, K e (a.1.apply e).2) :
    K s.engine s'.engine := by
  induction h with
  | start => exact hK.refl _
  | @step s₁ s₂ T ev _ hstep ih =>
    rw [T.actions_concat] at hop
    obtain ⟨hbefore, hlast⟩ := List.forall_mem_append.mp hop
    refine hK.trans (ih hbefore) ?_
    rcases hstep.engine_cases with ⟨a, hev, -, hengine⟩ | ⟨-, inbox, clock, hengine⟩
    · rw [hengine]
      exact hlast a (by simp [hev]) _
    · rw [hengine]
      exact hinbox _ _ _

theorem Plays.grows (h : Plays s T s') : s.engine.Grows s'.engine :=
  h.effect grows_isEffect (fun _ _ _ _ _ h => h)
    fun a _ e => a.1.grows_apply e

theorem Plays.isSome_group? (h : Plays s T s') (g : Nat) :
    (s'.engine.group? g).isSome = (s.engine.group? g).isSome := by
  refine (h.effect (K := fun e e' => (e.group? g).isSome = (e'.group? g).isSome) ?_ ?_ ?_).symm
  · exact ⟨fun _ => rfl, Eq.trans⟩
  · exact fun _ _ _ => rfl
  · exact fun a _ e => (a.1.isSome_group?_apply e g).symm

theorem Plays.length_groups (h : Plays s T s') :
    s'.engine.groups.length = s.engine.groups.length := by
  have hthere (g : Nat) : g < s'.engine.groups.length ↔ g < s.engine.groups.length := by
    have hsame := h.isSome_group? g
    rwa [Engine.group?, Engine.group?, Bool.eq_iff_iff, isSome_getElem?, isSome_getElem?] at hsame
  have hle := hthere s'.engine.groups.length
  have hge := hthere s.engine.groups.length
  omega

/-- The run is told of as many groups as there were at the beginning. -/
theorem Plays.groupCount (h : Plays s T s') {count : Nat}
    (hread : Event.main ⟨.groupCount, count⟩ ∈ T) : count = s.engine.groups.length := by
  obtain ⟨U, V, rfl⟩ := List.append_of_mem hread
  obtain ⟨s₁, s₂, hU, hstep, -⟩ := h.exists_step
  have hlength := hU.length_groups
  cases hstep
  exact hlength

theorem Plays.length_tokens (h : Plays s T s') :
    s.engine.tokens.length ≤ s'.engine.tokens.length :=
  h.effect (K := fun e e' => e.tokens.length ≤ e'.tokens.length)
    ⟨fun _ => Nat.le_refl _, Nat.le_trans⟩ (fun _ _ _ => Nat.le_refl _)
    fun a _ e => a.1.length_tokens_apply e

/-- A stop token that is set stays so. -/
theorem Plays.tokenSet (h : Plays s T s') {token : Nat} (hset : s.engine.tokenSet token = true) :
    s'.engine.tokenSet token = true :=
  h.effect (K := fun e e' => e.tokenSet token = true → e'.tokenSet token = true)
    ⟨fun _ h => h, fun h h' hset => h' (h hset)⟩ (fun _ _ _ h => h)
    (fun a _ _ => a.1.tokenSet_apply) hset

/-- A stop token that is found set was so before, or somebody has set it. -/
theorem Plays.tokenSet_cases (h : Plays s T s') {token : Nat}
    (hset : s'.engine.tokenSet token = true) :
    s.engine.tokenSet token = true ∨ ∃ a ∈ T.actions, a.1.SetsToken token := by
  by_cases hsetter : ∃ a ∈ T.actions, a.1.SetsToken token
  · exact .inr hsetter
  · refine .inl (h.effect
      (K := fun e e' => e'.tokenSet token = true → e.tokenSet token = true) ?_ ?_ ?_ hset)
    · exact ⟨fun _ h => h, fun h h' hset => h (h' hset)⟩
    · exact fun _ _ _ h => h
    · intro a ha e hafter
      rcases Action.tokenSet_of_apply hafter with hbefore | hop
      · exact hbefore
      · exact absurd ⟨a, ha, hop⟩ hsetter

end Effects

/-- The cursor of a group is where the operations on it have put it. -/
theorem Plays.cursorOf (h : Plays s T s') {g : Nat} (hg : (s.engine.group? g).isSome) :
    s'.engine.cursorOf g =
      T.actions.foldl (fun cursor a => a.1.cursorBy g cursor) (s.engine.cursorOf g) := by
  induction h with
  | start => rfl
  | @step s₁ s₂ T ev hplays hstep ih =>
    have hthere : (s₁.engine.group? g).isSome := (hplays.isSome_group? g).trans hg
    rw [T.actions_concat, List.foldl_append, ← ih]
    rcases hstep.engine_cases with ⟨a, hev, -, hengine⟩ | ⟨hev, inbox, clock, hengine⟩
    · rw [hev, hengine]
      exact a.1.cursorOf_apply hthere
    · rw [hev, hengine]
      rfl

/-- A check is what the verdicts on it have made of it. -/
theorem Plays.standing? (h : Plays s T s') {r : CheckRef} {v : Standing}
    (hv : s.engine.standing? r = some v) :
    s'.engine.standing? r = some ((T.filterMap (Event.verdictOn? r)).foldl Standing.take v) := by
  induction h with
  | start => exact hv
  | @step s₁ s₂ T ev _ hstep ih =>
    rw [T.filterMap_concat, List.foldl_append, Event.verdictOn?]
    rcases hstep.engine_cases with ⟨a, hev, -, hengine⟩ | ⟨hev, inbox, clock, hengine⟩
    · rw [hev, hengine, a.1.standing?_apply_of_some ih, Option.bind_some]
      cases a.1.verdictOn? r <;> rfl
    · rw [hev, hengine]
      exact ih

end Scene

end Conformance
