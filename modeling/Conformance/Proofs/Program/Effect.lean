import Conformance.Program

/-!
Effects of programs that are run alone, as a relation between the states before and after. A
relation that is reflexive and transitive holds for a composed program when it holds for its parts,
and a program may have to keep it only where it comes to certain results.
-/
namespace Conformance.Prog

variable {Op : Type} {Resp : Op → Type} {α β σ : Type}
  {apply : (op : Op) → σ → Resp op × σ} {K : σ → σ → Prop}

/-- A composed program comes to a value through a value of its first part. -/
theorem exec_bind_ok {p : Prog Resp α} {f : α → Prog Resp β} {s t : σ} {value : β}
    (h : (p.bind f).exec apply s = (.ok value, t)) :
    ∃ a u, p.exec apply s = (.ok a, u) ∧ (f a).exec apply u = (.ok value, t) := by
  rw [exec_bind] at h
  generalize p.exec apply s = y at h ⊢
  obtain ⟨x, u⟩ := y
  cases x with
  | ok a => exact ⟨a, u, rfl, h⟩
  | error q => cases h

theorem exec_bind_of_ok {p : Prog Resp α} {s u : σ} {a : α} (h : p.exec apply s = (.ok a, u))
    (f : α → Prog Resp β) : (p.bind f).exec apply s = (f a).exec apply u := by
  rw [exec_bind, h]

structure IsEffect (K : σ → σ → Prop) : Prop where
  refl (s : σ) : K s s
  trans {s t u : σ} (h : K s t) (h' : K t u) : K s u

/-- The program has the effect wherever its result is one of those. -/
def Has (apply : (op : Op) → σ → Resp op × σ) (K : σ → σ → Prop) (when : Except Panic α → Prop)
    (p : Prog Resp α) : Prop :=
  ∀ s, when (p.exec apply s).1 → K s (p.exec apply s).2

abbrev Always {α : Type} (_ : α) : Prop := True

theorem Has.mono {when weaker : Except Panic α → Prop} {p : Prog Resp α}
    (h : p.Has apply K weaker) (hwhen : ∀ x, when x → weaker x) : p.Has apply K when :=
  fun s hx => h s (hwhen _ hx)

theorem has_done (hK : IsEffect K) (when : Except Panic α → Prop) (value : α) :
    (done value : Prog Resp α).Has apply K when :=
  fun s _ => hK.refl s

theorem has_panic (hK : IsEffect K) (when : Except Panic α → Prop) (p : Panic) :
    (panic p : Prog Resp α).Has apply K when :=
  fun s _ => hK.refl s

theorem has_request {op : Op} {when : Except Panic (Resp op) → Prop}
    (h : ∀ s, K s (apply op s).2) : (request op : Prog Resp (Resp op)).Has apply K when :=
  fun s _ => h s

/-- The first part has to have the effect only where the second may still come to such a result. -/
theorem Has.bind (hK : IsEffect K) {p : Prog Resp α} {f : α → Prog Resp β}
    {first : Except Panic α → Prop} {when : Except Panic β → Prop} (hp : p.Has apply K first)
    (hf : ∀ value, (f value).Has apply K when)
    (hfirst : ∀ value s, when ((f value).exec apply s).1 → first (.ok value))
    (hpanic : ∀ q, when (.error q) → first (.error q)) : (p.bind f).Has apply K when := by
  intro s hx
  have hps := hp s
  rw [exec_bind] at hx ⊢
  generalize p.exec apply s = y at hx hps ⊢
  obtain ⟨x, s'⟩ := y
  cases x with
  | ok value => exact hK.trans (hps (hfirst value s' hx)) (hf value s' hx)
  | error q => exact hps (hpanic q hx)

theorem Has.bind_always (hK : IsEffect K) {p : Prog Resp α} {f : α → Prog Resp β}
    {when : Except Panic β → Prop} (hp : p.Has apply K Always)
    (hf : ∀ value, (f value).Has apply K when) : (p.bind f).Has apply K when :=
  hp.bind hK hf (fun _ _ _ => trivial) fun _ _ => trivial

theorem Has.guarded {when : Except Panic α → Prop} {p : Prog Resp α} (hp : p.Has apply K when) :
    p.guarded.Has apply K (∀ y, · = .ok y → when y) := by
  intro s hx
  rw [exec_guarded] at hx ⊢
  exact hp s (hx _ rfl)

/-- An effect of every operation is one of every program. -/
theorem has_of_apply (hK : IsEffect K) (happly : ∀ op s, K s (apply op s).2) (p : Prog Resp α) :
    p.Has apply K Always := by
  induction p with
  | done value => exact has_done hK _ value
  | panic q => exact has_panic hK _ q
  | ask op next ih =>
    intro s _
    exact hK.trans (happly op s) (ih _ _ trivial)

/-- An effect of every operation is one of a program even if it has to wait on the way. -/
theorem effect_execUntil {waits : Op → σ → Bool} (hK : IsEffect K)
    (happly : ∀ op s, K s (apply op s).2) (p : Prog Resp α) (s : σ) :
    K s (p.execUntil waits apply s).2 := by
  induction p generalizing s with
  | done value => exact hK.refl s
  | panic q => exact hK.refl s
  | ask op next ih =>
    rw [execUntil]
    split
    · exact hK.refl s
    · exact hK.trans (happly op s) (ih _ _)

/-- A lifted program does what it does over its own operations. -/
theorem exec_lift {Op' : Type} {Resp' : Op' → Type} {embed : Op → Op'}
    {answer : (op : Op) → Resp' (embed op) → Resp op}
    {apply' : (op : Op') → σ → Resp' op × σ}
    (happly : ∀ op s, (answer op (apply' (embed op) s).1, (apply' (embed op) s).2) = apply op s)
    (p : Prog Resp α) (s : σ) : (p.lift embed answer).exec apply' s = p.exec apply s := by
  induction p generalizing s with
  | done value => rfl
  | panic q => rfl
  | ask op next ih =>
    rw [lift, exec, exec, ih, ← happly]

end Conformance.Prog
