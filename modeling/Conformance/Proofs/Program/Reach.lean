import Conformance.Proofs.Program.Effect
import Conformance.Proofs.Program.Trail

/-!
Programs that have come some way: the exchanges so far, and what is left to do. A program that runs
among others is known from this alone. A bound on the operations that a program may ask for holds
however far it has come.
-/
namespace Conformance.Prog

variable {Op : Type} {Resp : Op → Type} {α β : Type}

inductive Reaches : Prog Resp α → List (Exchange Resp) → Prog Resp α → Prop
  | start (p : Prog Resp α) : Reaches p [] p
  | ask {op : Op} {next : Resp op → Prog Resp α} {answer : Resp op} {t : List (Exchange Resp)}
      {q : Prog Resp α} (h : Reaches (next answer) t q) :
      Reaches (ask op next) (⟨op, answer⟩ :: t) q

theorem Reaches.snoc {p : Prog Resp α} {t : List (Exchange Resp)} {op : Op}
    {next : Resp op → Prog Resp α} (h : p.Reaches t (.ask op next)) (answer : Resp op) :
    p.Reaches (t ++ [⟨op, answer⟩]) (next answer) := by
  generalize hq : Prog.ask op next = q at h
  induction h with
  | start p =>
    subst hq
    exact .ask (.start _)
  | ask h ih => exact .ask (ih hq)

/-- A program goes on from where it has come to. -/
theorem Reaches.goes {p q : Prog Resp α} {t u : List (Exchange Resp)} {x : Except Panic α}
    (h : p.Reaches t q) (hq : q.Goes u x) : p.Goes (t ++ u) x := by
  induction h with
  | start p => exact hq
  | ask h ih => exact .ask (ih hq)

theorem Goes.exists_reaches {p : Prog Resp α} {t : List (Exchange Resp)} {x : Except Panic α}
    (h : p.Goes t x) : ∃ q, p.Reaches t q := by
  induction h with
  | done value => exact ⟨_, .start _⟩
  | panic r => exact ⟨_, .start _⟩
  | ask h ih =>
    obtain ⟨q, hq⟩ := ih
    exact ⟨q, .ask hq⟩

/-- However far a program has come, it may go on to an end. -/
theorem Reaches.exists_goes (hResp : ∀ op, Nonempty (Resp op)) {p q : Prog Resp α}
    {t : List (Exchange Resp)} (h : p.Reaches t q) : ∃ u x, p.Goes (t ++ u) x := by
  have hends (q : Prog Resp α) : ∃ u x, q.Goes u x := by
    induction q with
    | done value => exact ⟨[], _, .done value⟩
    | panic r => exact ⟨[], _, .panic r⟩
    | ask op next ih =>
      obtain ⟨answer⟩ := hResp op
      obtain ⟨u, x, hgoes⟩ := ih answer
      exact ⟨_, x, .ask hgoes⟩
  obtain ⟨u, x, hgoes⟩ := hends q
  exact ⟨u, x, h.goes hgoes⟩

theorem Reaches.goes_of_done {p : Prog Resp α} {t : List (Exchange Resp)} {value : α}
    (h : p.Reaches t (done value)) : p.Goes t (.ok value) := by
  simpa using h.goes (.done value)

theorem reaches_done {value : α} {t : List (Exchange Resp)} {q : Prog Resp α}
    (h : (done value : Prog Resp α).Reaches t q) : t = [] := by
  cases h
  rfl

theorem reaches_panic {p : Panic} {t : List (Exchange Resp)} {q : Prog Resp α}
    (h : (panic p : Prog Resp α).Reaches t q) : t = [] := by
  cases h
  rfl

theorem reaches_ask {op : Op} {next : Resp op → Prog Resp α} {t : List (Exchange Resp)}
    {q : Prog Resp α} (h : (ask op next).Reaches t q) :
    t = [] ∨ ∃ answer t', t = ⟨op, answer⟩ :: t' ∧ (next answer).Reaches t' q := by
  cases h with
  | start => exact .inl rfl
  | ask h => exact .inr ⟨_, _, rfl, h⟩

theorem reaches_request_bind {op : Op} {f : Resp op → Prog Resp β} {t : List (Exchange Resp)}
    {q : Prog Resp β} (h : ((request op : Prog Resp (Resp op)).bind f).Reaches t q) :
    t = [] ∨ ∃ answer t', t = ⟨op, answer⟩ :: t' ∧ (f answer).Reaches t' q := reaches_ask h

/-- A composed program is in its first part, or past it. -/
theorem reaches_bind {p : Prog Resp α} {f : α → Prog Resp β} {t : List (Exchange Resp)}
    {q : Prog Resp β} (h : (p.bind f).Reaches t q) :
    (∃ p', p.Reaches t p') ∨
      ∃ t₁ t₂ value, t = t₁ ++ t₂ ∧ p.Goes t₁ (.ok value) ∧ (f value).Reaches t₂ q := by
  induction p generalizing t with
  | done value => exact .inr ⟨[], t, value, rfl, .done value, h⟩
  | panic r =>
    obtain rfl := reaches_panic h
    exact .inl ⟨_, .start _⟩
  | ask op next ih =>
    rcases reaches_ask h with rfl | ⟨answer, t, rfl, hnext⟩
    · exact .inl ⟨_, .start _⟩
    · rcases ih answer hnext with ⟨p', hp'⟩ | ⟨t₁, t₂, value, rfl, h₁, h₂⟩
      · exact .inl ⟨p', .ask hp'⟩
      · exact .inr ⟨_, t₂, value, rfl, .ask h₁, h₂⟩

theorem reaches_guarded {p : Prog Resp α} {t : List (Exchange Resp)}
    {q : Prog Resp (Except Panic α)} (h : p.guarded.Reaches t q) : ∃ p', p.Reaches t p' := by
  induction p generalizing t with
  | done value =>
    obtain rfl := reaches_done h
    exact ⟨_, .start _⟩
  | panic r =>
    obtain rfl := reaches_done h
    exact ⟨_, .start _⟩
  | ask op next ih =>
    rcases reaches_ask h with rfl | ⟨answer, t, rfl, hnext⟩
    · exact ⟨_, .start _⟩
    · obtain ⟨p', hp'⟩ := ih answer hnext
      exact ⟨p', .ask hp'⟩

theorem reaches_guarded_bind {p : Prog Resp α} {f : Except Panic α → Prog Resp β}
    {t : List (Exchange Resp)} {q : Prog Resp β} (h : (p.guarded.bind f).Reaches t q) :
    (∃ p', p.Reaches t p') ∨
      ∃ t₁ t₂ y, t = t₁ ++ t₂ ∧ p.Goes t₁ y ∧ (f y).Reaches t₂ q := by
  rcases reaches_bind h with ⟨p', hp'⟩ | ⟨t₁, t₂, value, rfl, h₁, h₂⟩
  · exact .inl (reaches_guarded hp')
  · obtain ⟨y, hy, hp⟩ := goes_guarded h₁
    cases hy
    exact .inr ⟨t₁, t₂, value, rfl, hp, h₂⟩

section Only

variable {P Q : Op → Prop}

/-- The program asks for no other operations, whatever it is answered. -/
def Only (P : Op → Prop) : Prog Resp α → Prop
  | done _ => True
  | panic _ => True
  | ask op next => P op ∧ ∀ answer, (next answer).Only P

theorem only_request {op : Op} (h : P op) : (request op : Prog Resp (Resp op)).Only P :=
  ⟨h, fun _ => trivial⟩

theorem Only.bind {p : Prog Resp α} {f : α → Prog Resp β} (hp : p.Only P)
    (hf : ∀ value, (f value).Only P) : (p.bind f).Only P := by
  induction p with
  | done value => exact hf value
  | panic r => trivial
  | ask op next ih => exact ⟨hp.1, fun answer => ih answer (hp.2 answer)⟩

/-- The second part has to keep to the operations only for the values that the first comes to. -/
theorem Only.bind_goes {p : Prog Resp α} {f : α → Prog Resp β} (hp : p.Only P)
    (hf : ∀ t value, p.Goes t (.ok value) → (f value).Only P) : (p.bind f).Only P := by
  induction p with
  | done value => exact hf [] value (.done value)
  | panic r => trivial
  | ask op next ih =>
    exact ⟨hp.1, fun answer => ih answer (hp.2 answer) fun t value h => hf _ value (.ask h)⟩

theorem Only.guarded {p : Prog Resp α} (hp : p.Only P) : p.guarded.Only P := by
  induction p with
  | done value => trivial
  | panic r => trivial
  | ask op next ih => exact ⟨hp.1, fun answer => ih answer (hp.2 answer)⟩

theorem Only.mono {p : Prog Resp α} (hp : p.Only P) (h : ∀ op, P op → Q op) : p.Only Q := by
  induction p with
  | done value => trivial
  | panic r => trivial
  | ask op next ih => exact ⟨h op hp.1, fun answer => ih answer (hp.2 answer)⟩

theorem Only.lift {Op' : Type} {Resp' : Op' → Type} {embed : Op → Op'}
    {answer : (op : Op) → Resp' (embed op) → Resp op} {P' : Op' → Prop} {p : Prog Resp α}
    (hp : p.Only P) (h : ∀ op, P op → P' (embed op)) : (p.lift embed answer).Only P' := by
  induction p with
  | done value => trivial
  | panic r => trivial
  | ask op next ih => exact ⟨h op hp.1, fun a => ih (answer op a) (hp.2 _)⟩

theorem only_lift {Op' : Type} {Resp' : Op' → Type} {embed : Op → Op'}
    {answer : (op : Op) → Resp' (embed op) → Resp op} {P : Op' → Prop}
    (h : ∀ op, P (embed op)) (p : Prog Resp α) : (p.lift embed answer).Only P := by
  induction p with
  | done value => trivial
  | panic r => trivial
  | ask op next ih => exact ⟨h op, fun a => ih (answer op a)⟩

theorem Only.reaches {p q : Prog Resp α} (hp : p.Only P) {t : List (Exchange Resp)}
    (h : p.Reaches t q) : ∀ a ∈ t, P a.1 := by
  induction h with
  | start p => exact nofun
  | ask h ih => exact List.forall_mem_cons.mpr ⟨hp.1, ih (hp.2 _)⟩

/-- What is left of a program asks for no other operations either. -/
theorem Only.rest {p q : Prog Resp α} (hp : p.Only P) {t : List (Exchange Resp)}
    (h : p.Reaches t q) : q.Only P := by
  induction h with
  | start => exact hp
  | ask _ ih => exact ih (hp.2 _)

theorem Only.goes {p : Prog Resp α} (hp : p.Only P) {t : List (Exchange Resp)}
    {x : Except Panic α} (h : p.Goes t x) : ∀ a ∈ t, P a.1 := by
  induction h with
  | done value => exact nofun
  | panic r => exact nofun
  | ask h ih => exact List.forall_mem_cons.mpr ⟨hp.1, ih (hp.2 _)⟩

/-- An effect of all operations that a program may ask for is one of the program. -/
theorem Only.effect {σ : Type} {apply : (op : Op) → σ → Resp op × σ} {K : σ → σ → Prop}
    (hK : IsEffect K) (happly : ∀ op s, P op → K s (apply op s).2) {p : Prog Resp α}
    (hp : p.Only P) (s : σ) : K s (p.exec apply s).2 := by
  induction p generalizing s with
  | done value => exact hK.refl s
  | panic r => exact hK.refl s
  | ask op next ih => exact hK.trans (happly op s hp.1) (ih _ (hp.2 _) _)

end Only

section Panics

/-- The program comes to no panic, whatever it is answered. -/
def NeverPanics : Prog Resp α → Prop
  | done _ => True
  | panic _ => False
  | ask _ next => ∀ answer, (next answer).NeverPanics

theorem neverPanics_request (op : Op) : (request op : Prog Resp (Resp op)).NeverPanics :=
  fun _ => trivial

theorem NeverPanics.bind {p : Prog Resp α} {f : α → Prog Resp β} (hp : p.NeverPanics)
    (hf : ∀ value, (f value).NeverPanics) : (p.bind f).NeverPanics := by
  induction p with
  | done value => exact hf value
  | panic r => exact absurd hp id
  | ask op next ih => exact fun answer => ih answer (hp answer)

theorem neverPanics_guarded (p : Prog Resp α) : p.guarded.NeverPanics := by
  induction p with
  | done value => trivial
  | panic r => trivial
  | ask op next ih => exact ih

theorem NeverPanics.lift {Op' : Type} {Resp' : Op' → Type} {embed : Op → Op'}
    {answer : (op : Op) → Resp' (embed op) → Resp op} {p : Prog Resp α} (hp : p.NeverPanics) :
    (p.lift embed answer).NeverPanics := by
  induction p with
  | done value => trivial
  | panic r => exact absurd hp id
  | ask op next ih => exact fun a => ih (answer op a) (hp _)

theorem NeverPanics.goes {p : Prog Resp α} (hp : p.NeverPanics) {t : List (Exchange Resp)}
    {x : Except Panic α} (h : p.Goes t x) : ∃ value, x = .ok value := by
  induction h with
  | done value => exact ⟨value, rfl⟩
  | panic r => exact absurd hp id
  | ask h ih => exact ih (hp _)

theorem NeverPanics.exec {σ : Type} {apply : (op : Op) → σ → Resp op × σ} {p : Prog Resp α}
    (hp : p.NeverPanics) (s : σ) : ∃ value t, p.exec apply s = (.ok value, t) := by
  obtain ⟨value, hvalue⟩ := hp.goes (goes_trail apply p s)
  exact ⟨value, _, Prod.ext hvalue rfl⟩

end Panics

end Conformance.Prog
