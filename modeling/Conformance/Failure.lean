import Conformance.Program

/-!
Errors that callbacks return: a cause and the contexts put around it, the outermost first. The
text of an error names every layer. A layer may be a request to abort the run, and asking for the
text of a layer may panic.
-/
namespace Conformance

inductive Layer where
  | text (message : String)
  | abortRequest (message : String)
  | unprintable (panic : Panic)
  deriving DecidableEq, Repr

structure Failure where
  outermost : Layer
  inner : List Layer
  deriving DecidableEq, Repr

def Layer.text? : Layer → Except Panic String
  | text message => .ok message
  | abortRequest message => .ok message
  | unprintable panic => .error panic

namespace Failure

def ofText (message : String) : Failure := ⟨.text message, []⟩

def layers (f : Failure) : List Layer := f.outermost :: f.inner

def withContext (f : Failure) (context : String) : Failure := ⟨.text context, f.layers⟩

/-- Each context goes around the ones before it. -/
def withContexts (f : Failure) (contexts : List String) : Failure := contexts.foldl withContext f

/-- All layers from the outermost in, or the first panic met on the way. -/
def text? (f : Failure) : Except Panic String := do
  return ": ".intercalate (← f.layers.mapM Layer.text?)

/-- The message of the outermost request to abort, at whatever depth it is. -/
def abortMessage? (f : Failure) : Option String :=
  f.layers.findSome? fun
    | .abortRequest message => some message
    | _ => none

/-- The text as a program, which panics where asking for the text does. -/
def text {Op : Type} {Resp : Op → Type} (f : Failure) : Prog Resp String :=
  match f.text? with
  | .ok text => .done text
  | .error p => .panic p

end Failure

end Conformance
