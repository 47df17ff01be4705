import Conformance.Program

/-!
Trails of programs: the operations that a program asks for, each with the answer that it was given,
up to its end. A trail leaves open where the answers come from, so what holds along every trail
holds for a program run alone and for one run among others. The trail of a composed program is
made of the trails of its parts.
-/
namespace Conformance.Prog

variable {Op : Type} {Resp : Op → Type} {α β σ : Type}

/-- An operation with the answer that it was given. -/
abbrev Exchange (Resp : Op → Type) := (op : Op) × Resp op

inductive Goes : Prog Resp α → List (Exchange Resp) → Except Panic α → Prop
  | done (value : α) : Goes (done value) [] (.ok value)
  | panic (p : Panic) : Goes (panic p) [] (.error p)
  | ask {op : Op} {next : Resp op → Prog Resp α} {answer : Resp op}
      {t : List (Exchange Resp)} {x : Except Panic α} (h : Goes (next answer) t x) :
      Goes (ask op next) (⟨op, answer⟩ :: t) x

theorem goes_done {value : α} {t : List (Exchange Resp)} {x : Except Panic α}
    (h : (done value : Prog Resp α).Goes t x) : t = [] ∧ x = .ok value := by
  cases h
  exact ⟨rfl, rfl⟩

theorem goes_panic {p : Panic} {t : List (Exchange Resp)} {x : Except Panic α}
    (h : (panic p : Prog Resp α).Goes t x) : t = [] ∧ x = .error p := by
  cases h
  exact ⟨rfl, rfl⟩

theorem goes_ask {op : Op} {next : Resp op → Prog Resp α} {t : List (Exchange Resp)}
    {x : Except Panic α} (h : (ask op next).Goes t x) :
    ∃ answer t', t = ⟨op, answer⟩ :: t' ∧ (next answer).Goes t' x := by
  cases h with
  | ask h => exact ⟨_, _, rfl, h⟩

theorem goes_request_bind {op : Op} {f : Resp op → Prog Resp β} {t : List (Exchange Resp)}
    {x : Except Panic β} (h : ((request op : Prog Resp (Resp op)).bind f).Goes t x) :
    ∃ answer t', t = ⟨op, answer⟩ :: t' ∧ (f answer).Goes t' x := goes_ask h

/-- The second part goes on where the first one ended, unless that was a panic. -/
theorem goes_bind {p : Prog Resp α} {f : α → Prog Resp β} {t : List (Exchange Resp)}
    {x : Except Panic β} (h : (p.bind f).Goes t x) :
    (∃ t₁ t₂ value, t = t₁ ++ t₂ ∧ p.Goes t₁ (.ok value) ∧ (f value).Goes t₂ x) ∨
      ∃ q, x = .error q ∧ p.Goes t (.error q) := by
  induction p generalizing t with
  | done value => exact .inl ⟨[], t, value, rfl, .done value, h⟩
  | panic q =>
    obtain ⟨rfl, rfl⟩ := goes_panic h
    exact .inr ⟨q, rfl, .panic q⟩
  | ask op next ih =>
    obtain ⟨answer, t, rfl, hnext⟩ := goes_ask h
    rcases ih answer hnext with ⟨t₁, t₂, value, rfl, h₁, h₂⟩ | ⟨q, rfl, h₁⟩
    · exact .inl ⟨_, t₂, value, rfl, .ask h₁, h₂⟩
    · exact .inr ⟨q, rfl, .ask h₁⟩

/-- A composed program comes to a value through a value of its first part. -/
theorem goes_bind_ok {p : Prog Resp α} {f : α → Prog Resp β} {t : List (Exchange Resp)}
    {value : β} (h : (p.bind f).Goes t (.ok value)) :
    ∃ t₁ t₂ a, t = t₁ ++ t₂ ∧ p.Goes t₁ (.ok a) ∧ (f a).Goes t₂ (.ok value) := by
  rcases goes_bind h with hparts | ⟨q, hq, -⟩
  · exact hparts
  · cases hq

theorem goes_guarded {p : Prog Resp α} {t : List (Exchange Resp)}
    {x : Except Panic (Except Panic α)} (h : p.guarded.Goes t x) :
    ∃ y, x = .ok y ∧ p.Goes t y := by
  induction p generalizing t with
  | done value =>
    obtain ⟨rfl, rfl⟩ := goes_done h
    exact ⟨_, rfl, .done value⟩
  | panic q =>
    obtain ⟨rfl, rfl⟩ := goes_done h
    exact ⟨_, rfl, .panic q⟩
  | ask op next ih =>
    obtain ⟨answer, t, rfl, hnext⟩ := goes_ask h
    obtain ⟨y, rfl, hy⟩ := ih answer hnext
    exact ⟨y, rfl, .ask hy⟩

/-- A guarded part ends with a value, whatever it does. -/
theorem goes_guarded_bind {p : Prog Resp α} {f : Except Panic α → Prog Resp β}
    {t : List (Exchange Resp)} {x : Except Panic β} (h : (p.guarded.bind f).Goes t x) :
    ∃ t₁ t₂ y, t = t₁ ++ t₂ ∧ p.Goes t₁ y ∧ (f y).Goes t₂ x := by
  rcases goes_bind h with ⟨t₁, t₂, value, rfl, h₁, h₂⟩ | ⟨q, -, h₁⟩
  · obtain ⟨y, hy, hp⟩ := goes_guarded h₁
    cases hy
    exact ⟨t₁, t₂, value, rfl, hp, h₂⟩
  · obtain ⟨y, hy, -⟩ := goes_guarded h₁
    cases hy

/-- A lifted program asks for embedded operations only. -/
theorem goes_lift {Op' : Type} {Resp' : Op' → Type} {embed : Op → Op'}
    {answer : (op : Op) → Resp' (embed op) → Resp op} {p : Prog Resp α}
    {t : List (Exchange Resp')} {x : Except Panic α} (h : (p.lift embed answer).Goes t x) :
    ∀ s ∈ t, ∃ op, s.1 = embed op := by
  induction p generalizing t with
  | done value => simp [(goes_done h).1]
  | panic q => simp [(goes_panic h).1]
  | ask op next ih =>
    obtain ⟨a, t, rfl, hnext⟩ := goes_ask h
    exact List.forall_mem_cons.mpr ⟨⟨op, rfl⟩, ih (answer op a) hnext⟩

section Alone

variable (apply : (op : Op) → σ → Resp op × σ)

/-- The trail of a program that is run alone. -/
def trail : Prog Resp α → σ → List (Exchange Resp)
  | done _, _ => []
  | panic _, _ => []
  | ask op next, s => ⟨op, (apply op s).1⟩ :: trail (next (apply op s).1) (apply op s).2

/-- The trail of a program that is run up to an operation for which it has to wait. -/
def trailUntil (waits : Op → σ → Bool) : Prog Resp α → σ → List (Exchange Resp)
  | done _, _ => []
  | panic _, _ => []
  | ask op next, s =>
    if waits op s then []
    else ⟨op, (apply op s).1⟩ :: trailUntil waits (next (apply op s).1) (apply op s).2

theorem goes_trail (p : Prog Resp α) (s : σ) : p.Goes (p.trail apply s) (p.exec apply s).1 := by
  induction p generalizing s with
  | done value => exact .done value
  | panic q => exact .panic q
  | ask op next ih => exact .ask (ih _ _)

theorem trail_guarded (p : Prog Resp α) (s : σ) : p.guarded.trail apply s = p.trail apply s := by
  induction p generalizing s with
  | done value => rfl
  | panic q => rfl
  | ask op next ih => rw [guarded, trail, trail, ih]

/-- The trail of a composed program begins with that of its first part. -/
theorem isPrefix_trail_bind (p : Prog Resp α) (f : α → Prog Resp β) (s : σ) :
    p.trail apply s <+: (p.bind f).trail apply s := by
  induction p generalizing s with
  | done value => exact List.nil_prefix
  | panic q => exact List.nil_prefix
  | ask op next ih => exact List.cons_prefix_cons.mpr ⟨rfl, ih _ _⟩

/-- What every operation adds to a log is added along a trail. -/
theorem log_exec {γ : Type} (log : σ → List γ) (entry : Exchange Resp → List γ)
    (hlog : ∀ op s, log (apply op s).2 = log s ++ entry ⟨op, (apply op s).1⟩)
    (p : Prog Resp α) (s : σ) :
    log (p.exec apply s).2 = log s ++ (p.trail apply s).flatMap entry := by
  induction p generalizing s with
  | done value => simp [exec, trail]
  | panic q => simp [exec, trail]
  | ask op next ih =>
    rw [exec, trail, ih, hlog, List.flatMap_cons, List.append_assoc]

/-- What no operation changes is the same at every exchange of a trail. -/
theorem exists_of_mem_trail {γ : Type} (view : σ → γ)
    (hview : ∀ op s, view (apply op s).2 = view s) {p : Prog Resp α} {s : σ}
    {a : Exchange Resp} (ha : a ∈ p.trail apply s) :
    ∃ s', view s' = view s ∧ a.2 = (apply a.1 s').1 := by
  induction p generalizing s with
  | done value => simp [trail] at ha
  | panic q => simp [trail] at ha
  | ask op next ih =>
    rcases List.mem_cons.mp ha with rfl | ha
    · exact ⟨s, rfl, rfl⟩
    · obtain ⟨s', hs', ha⟩ := ih _ ha
      exact ⟨s', hs'.trans (hview op s), ha⟩

end Alone

end Conformance.Prog
