/-!
Programs that ask for one operation at a time and go on with its answer. A program is finite along
every run, whatever the answers are, and ends with a value or a panic. What an operation does is
left to the one who runs the program, so the same program can be run alone or step by step among
others.
-/
namespace Conformance

/-- What is known of a panic: its message and the text of the call stack. -/
structure Panic where
  message : String
  trace : String
  deriving DecidableEq, Repr

def Panic.text (p : Panic) : String := p.message ++ "\n" ++ p.trace

/-- What a panic is raised with. -/
inductive Payload where
  | text (message : String)
  | other
  deriving DecidableEq, Repr

def Payload.message : Payload → String
  | text message => message
  | other => "non-string panic payload"

inductive Prog {Op : Type} (Resp : Op → Type) (α : Type) where
  | done (value : α)
  | panic (p : Panic)
  | ask (op : Op) (next : Resp op → Prog Resp α)

namespace Prog

variable {Op : Type} {Resp : Op → Type} {α β σ : Type}

def bind (p : Prog Resp α) (f : α → Prog Resp β) : Prog Resp β :=
  match p with
  | done value => f value
  | panic p => panic p
  | ask op next => ask op fun answer => (next answer).bind f

instance : Monad (Prog Resp) where
  pure := done
  bind := bind

def request (op : Op) : Prog Resp (Resp op) := ask op done

/-- The program with its panic, if it comes to one, as a value. -/
def guarded : Prog Resp α → Prog Resp (Except Panic α)
  | done value => done (.ok value)
  | panic p => done (.error p)
  | ask op next => ask op fun answer => (next answer).guarded

/-- The same program over more operations. -/
def lift {Op' : Type} {Resp' : Op' → Type} (embed : Op → Op')
    (answer : (op : Op) → Resp' (embed op) → Resp op) : Prog Resp α → Prog Resp' α
  | done value => done value
  | panic p => panic p
  | ask op next => ask (embed op) fun a => (next (answer op a)).lift embed answer

/-- Runs the program alone. -/
def exec (apply : (op : Op) → σ → Resp op × σ) : Prog Resp α → σ → Except Panic α × σ
  | done value, s => (.ok value, s)
  | panic p, s => (.error p, s)
  | ask op next, s => exec apply (next (apply op s).1) (apply op s).2

/-- Runs the program up to the first operation for which it has to wait. -/
def execUntil (waits : Op → σ → Bool) (apply : (op : Op) → σ → Resp op × σ) :
    Prog Resp α → σ → Prog Resp α × σ
  | done value, s => (done value, s)
  | panic p, s => (panic p, s)
  | ask op next, s =>
    if waits op s then (ask op next, s)
    else execUntil waits apply (next (apply op s).1) (apply op s).2

@[simp] theorem pure_eq (value : α) : (pure value : Prog Resp α) = done value := rfl

@[simp] theorem bind_eq (p : Prog Resp α) (f : α → Prog Resp β) : (p >>= f) = p.bind f := rfl

@[simp] theorem done_bind (value : α) (f : α → Prog Resp β) : (done value).bind f = f value := rfl

@[simp] theorem panic_bind (p : Panic) (f : α → Prog Resp β) :
    (panic p : Prog Resp α).bind f = panic p := rfl

@[simp] theorem ask_bind (op : Op) (next : Resp op → Prog Resp α) (f : α → Prog Resp β) :
    (ask op next).bind f = ask op fun answer => (next answer).bind f := rfl

theorem bind_done (p : Prog Resp α) : p.bind done = p := by
  induction p with
  | done => rfl
  | panic => rfl
  | ask op next ih => simp [ih]

theorem bind_assoc {γ : Type} (p : Prog Resp α) (f : α → Prog Resp β) (g : β → Prog Resp γ) :
    (p.bind f).bind g = p.bind fun value => (f value).bind g := by
  induction p with
  | done => rfl
  | panic => rfl
  | ask op next ih => simp [ih]

/-- A program run alone does its first part and then the rest, unless the first part panics. -/
theorem exec_bind (apply : (op : Op) → σ → Resp op × σ) (p : Prog Resp α) (f : α → Prog Resp β)
    (s : σ) : (p.bind f).exec apply s =
      match p.exec apply s with
      | (.ok value, s) => (f value).exec apply s
      | (.error e, s) => (.error e, s) := by
  induction p generalizing s with
  | done => rfl
  | panic => rfl
  | ask op next ih => simp [exec, ih]

theorem exec_guarded (apply : (op : Op) → σ → Resp op × σ) (p : Prog Resp α) (s : σ) :
    p.guarded.exec apply s = (.ok (p.exec apply s).1, (p.exec apply s).2) := by
  induction p generalizing s with
  | done => rfl
  | panic => rfl
  | ask op next ih => simp [guarded, exec, ih]

end Prog

end Conformance
