import Conformance.Proofs.Group.Lifecycle

/-!
Callbacks that are called one after another. A call is recorded with all that the callback asked for
and with what it came to, so that the trail of a caller can be told as its calls and whatever it
does between them. The calls stop after the first that does not end well.
-/
namespace Conformance

open Conformance.Group (Trail)

variable {κ α β : Type} {run : κ → Call → Callback κ β}

/-- A call of a callback, with what the callback asked for and what it came to. -/
structure Called (run : κ → Call → Callback κ β) where
  callback : κ
  call : Call
  asked : Trail κ
  result : Except Panic β
  goes : (Worker.ofCallback (run callback call)).Goes asked result

namespace Called

def trail (a : Called run) : Trail κ := ⟨.enter a.call, ()⟩ :: a.asked

/-- A trail that begins with calling a callback, whose panic goes no further. -/
theorem of_goes_call {callback : κ} {call : Call} {f : Except Panic β → Worker κ α} {t : Trail κ}
    {x : Except Panic α} (h : ((Worker.call call (run callback call)).bind f).Goes t x) :
    ∃ (a : Called run) (u : Trail κ), a.callback = callback ∧ a.call = call ∧
      t = a.trail ++ u ∧ (f a.result).Goes u x := by
  simp only [Worker.call, Worker.act, Prog.bind_eq, Prog.bind_assoc] at h
  obtain ⟨-, t, rfl, hcalled⟩ := Prog.goes_request_bind h
  obtain ⟨asked, u, result, rfl, hgoes, hrest⟩ := Prog.goes_guarded_bind hcalled
  exact ⟨⟨callback, call, asked, result, hgoes⟩, u, rfl, rfl, rfl, hrest⟩

/-- What the callback asks for besides being called is a request. -/
theorem eq_request_of_mem_asked {a : Called run} {s : Prog.Exchange (@Action.Resp κ)}
    (h : s ∈ a.asked) : ∃ op, s.1 = .request op := Prog.goes_lift a.goes s h

end Called

/-- Calls in the order in which they are due, up to the first that does not end well. -/
inductive InOrder (well : Except Panic β → Prop) : List (κ × Call) → List (Called run) → Prop
  | finished : InOrder well [] []
  | stopped (a : Called run) (rest : List (κ × Call)) (h : ¬well a.result) :
      InOrder well ((a.callback, a.call) :: rest) [a]
  | next (a : Called run) {rest : List (κ × Call)} {made : List (Called run)}
      (h : well a.result) (hrest : InOrder well rest made) :
      InOrder well ((a.callback, a.call) :: rest) (a :: made)

namespace InOrder

variable {well : Except Panic β → Prop} {due : List (κ × Call)} {made : List (Called run)}

/-- The calls either end with one that did not go well, or are all that are due. -/
theorem cases_end (h : InOrder well due made) :
    ((∀ a ∈ made, well a.result) ∧ made.map (fun a => (a.callback, a.call)) = due) ∨
      ∃ earlier last, made = earlier ++ [last] ∧ (∀ a ∈ earlier, well a.result) ∧
        ¬well last.result := by
  induction h with
  | finished => exact .inl ⟨List.forall_mem_nil _, rfl⟩
  | stopped a rest h => exact .inr ⟨[], a, rfl, List.forall_mem_nil _, h⟩
  | next a h _ ih =>
    rcases ih with ⟨hall, hdue⟩ | ⟨earlier, last, rfl, hearlier, hlast⟩
    · exact .inl ⟨List.forall_mem_cons.mpr ⟨h, hall⟩, by rw [List.map_cons, hdue]⟩
    · exact .inr ⟨a :: earlier, last, rfl, List.forall_mem_cons.mpr ⟨h, hearlier⟩, hlast⟩

end InOrder

section Functions

/-- Phases with the calls that are due. -/
def Running.calling (r : CheckRef) (steps : List (Phase × κ)) : List (κ × Call) :=
  steps.map fun step => (step.2, step.1.call r)

/-- The functions of a check with this body, in the order in which they are due: the one before it
if there is one, the body, and the one after it if there is one. -/
def Check.due (c : Check κ) (r : CheckRef) (body : κ) : List (κ × Call) :=
  match c.before, c.after with
  | none, none => [(body, .body r)]
  | some before, none => [(before, .before r), (body, .body r)]
  | none, some after => [(body, .body r), (after, .after r)]
  | some before, some after => [(before, .before r), (body, .body r), (after, .after r)]

theorem Running.calling_phases (c : Check κ) (r : CheckRef) (body : κ) :
    calling r (phases c body) = c.due r body := by
  unfold phases Check.due
  cases c.before <;> cases c.after <;> rfl

end Functions

end Conformance
