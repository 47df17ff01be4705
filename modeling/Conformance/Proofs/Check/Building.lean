import Conformance.Check.Definition

/-!
Building a check in closed form. The steps up to the first that cannot be taken decide what every
part of the check is, the last step for a part with its way and the predicates in a row. A check
with a blank id or label is at fault from the start and takes no steps. No step has an effect once
there is a fault, so that the first fault is the one that stays.
-/
namespace Conformance

variable {κ : Type}

namespace BuildStep

/-- A step that cannot be taken. -/
def fails : BuildStep κ → Bool
  | timeout 0 => true
  | _ => false

def before? : BuildStep κ → Option κ
  | before callback => some callback
  | _ => none

def body? : BuildStep κ → Option κ
  | body callback => some callback
  | _ => none

def after? : BuildStep κ → Option κ
  | after callback => some callback
  | _ => none

def skip? : BuildStep κ → Option κ
  | skip callback => some callback
  | _ => none

def skipMode? : BuildStep κ → Option SkipMode
  | skipMode mode => some mode
  | _ => none

def timeout? : BuildStep κ → Option Nat
  | timeout nanos => some nanos
  | _ => none

end BuildStep

namespace Check

/-- The fault of a check with this id and these labels, whatever steps it takes. -/
def firstFault (id : String) (labels : List String) : Option BuildFault :=
  if Text.isBlankText id then some .emptyId
  else if labels.any Text.isBlankText then some (.emptyLabel id)
  else none

/-- The fault that stays with a check. -/
def faultOf (id : String) (labels : List String) (steps : List (BuildStep κ)) :
    Option BuildFault :=
  (firstFault id labels).or (if steps.any BuildStep.fails then some (.zeroTimeout id) else none)

/-- The steps that are taken. -/
def taken (id : String) (labels : List String) (steps : List (BuildStep κ)) :
    List (BuildStep κ) :=
  if (firstFault id labels).isSome then [] else steps.takeWhile fun s => !s.fails

/-- The check that steps make, all of which can be taken. -/
def assembled (id : String) (labels : List String) (steps : List (BuildStep κ))
    (fault : Option BuildFault) : Check κ where
  id := id
  labels := labels
  before := (steps.filterMap BuildStep.before?).getLast?
  body := (steps.filterMap BuildStep.body?).getLast?
  after := (steps.filterMap BuildStep.after?).getLast?
  skips := steps.filterMap BuildStep.skip?
  skipMode := (steps.filterMap BuildStep.skipMode?).getLast?.getD .any
  timeout := (steps.filterMap BuildStep.timeout?).getLast?
  fault := fault

variable {id : String} {labels : List String}

theorem new_eq (id : String) (labels : List String) :
    (new id labels : Check κ) = assembled id labels [] (firstFault id labels) := rfl

/-- A check at fault takes no more steps. -/
theorem foldl_add_of_fault {c : Check κ} (h : c.fault.isSome) (steps : List (BuildStep κ)) :
    steps.foldl add c = c := by
  induction steps with
  | nil => rfl
  | cons s rest ih =>
    rw [List.foldl_cons, add, if_pos h]
    exact ih

theorem add_assembled (done : List (BuildStep κ)) {s : BuildStep κ} (h : s.fails = false) :
    (assembled id labels done none).add s = assembled id labels (done ++ [s]) none := by
  cases s with
  | timeout nanos =>
    cases nanos with
    | zero => cases h
    | succ nanos => simp [add, step, assembled, BuildStep.before?, BuildStep.body?,
        BuildStep.after?, BuildStep.skip?, BuildStep.skipMode?, BuildStep.timeout?]
  | _ => simp [add, step, assembled, BuildStep.before?, BuildStep.body?, BuildStep.after?,
      BuildStep.skip?, BuildStep.skipMode?, BuildStep.timeout?]

theorem add_assembled_of_fails (done : List (BuildStep κ)) {s : BuildStep κ} (h : s.fails) :
    (assembled id labels done none).add s =
      assembled id labels done (some (.zeroTimeout id)) := by
  cases s with
  | timeout nanos =>
    cases nanos with
    | zero => rfl
    | succ nanos => cases h
  | _ => cases h

/-- From some steps on, more are taken up to the first that cannot be. -/
theorem foldl_add_assembled (steps done : List (BuildStep κ)) :
    steps.foldl add (assembled id labels done none) =
      assembled id labels (done ++ steps.takeWhile fun s => !s.fails)
        (if steps.any BuildStep.fails then some (.zeroTimeout id) else none) := by
  induction steps generalizing done with
  | nil => rw [List.takeWhile_nil, List.append_nil]; rfl
  | cons s rest ih =>
    rw [List.foldl_cons, List.takeWhile_cons, List.any_cons]
    cases hs : s.fails with
    | false => simp [add_assembled done hs, ih]
    | true =>
      rw [add_assembled_of_fails done hs, foldl_add_of_fault rfl]
      simp

theorem build_eq (id : String) (labels : List String) (steps : List (BuildStep κ)) :
    build id labels steps =
      assembled id labels (taken id labels steps) (faultOf id labels steps) := by
  rw [build, new_eq]
  cases hfirst : firstFault id labels with
  | some fault =>
    rw [foldl_add_of_fault rfl, taken, hfirst, faultOf, hfirst]
    rfl
  | none =>
    rw [foldl_add_assembled, taken, hfirst, faultOf, hfirst, List.nil_append]
    rfl

theorem fault_build (id : String) (labels : List String) (steps : List (BuildStep κ)) :
    (build id labels steps).fault = faultOf id labels steps := by
  rw [build_eq]
  rfl

/-- Nothing that comes after a fault has an effect. -/
theorem build_append_of_fault {steps : List (BuildStep κ)}
    (h : (faultOf id labels steps).isSome) (later : List (BuildStep κ)) :
    build id labels (steps ++ later) = build id labels steps := by
  rw [← fault_build] at h
  rw [build, List.foldl_append]
  exact foldl_add_of_fault h later

end Check

end Conformance
