import Conformance.Proofs.Group.Policy

/-!
The policy on failures over whole group runs: what has become of every check of the group when the
hook after all checks is called, and what that hook may still change.
-/
namespace Conformance.Group

variable {κ : Type}

section Stale

/-- The body of the first check returns an error. -/
def faulty : Behaviour Unit where
  act _ call :=
    match call with
    | .body ⟨0, 0⟩ => .done (.error (.ofText "broken"))
    | _ => .done (.ok ())
  excuse _ _ := .done none

def plain (id label : String) : Check Unit :=
  ⟨id, [label], none, some (), none, [], .any, none, none⟩

/-- The third check of the group is in error from before. -/
def stale : Engine Unit :=
  { (Engine.start 0 : Engine Unit) with
    groups := [{ Group.fresh "g" with checks := [
      .fresh (plain "a" "common"),
      .fresh (plain "b" "common"),
      { Registered.fresh (plain "c" "common") with
        status := { Status.start with state := .error, reason := "old" } },
      .fresh (plain "d" "rare")] }] }

def common : Label.Filter := ⟨"common", .label "common"⟩

def commonMember (index : Nat) (id : String) : Member Unit := (⟨0, index⟩, plain id "common")

/-- The body of a check judges it failed, and the hook after all checks returns an error. -/
def tardy : Behaviour Unit where
  act _ call :=
    match call with
    | .body r => do
      Callback.ask (.judge r (.failed "nope"))
      return .ok ()
    | .afterAll .. => .done (.error (.ofText "late"))
    | _ => .done (.ok ())
  excuse _ _ := .done none

theorem tardy_isLocal : IsLocal tardy where
  act callback call r hr e v hv := by
    simp only [tardy]
    split
    · rename_i q
      have hother : q ≠ r := fun heq => hr (heq ▸ List.mem_singleton_self _)
      have hkept := e.standing?_judge q (.failed "nope") r
      rw [if_neg hother, hv] at hkept
      exact hkept
    · exact hv
    · exact hv
  excuse callback call r hr e v hv := hv

def hooked : Engine Unit :=
  { (Engine.start 0 : Engine Unit) with
    groups := [{ (Group.fresh "g" : Group Unit) with
      hooks := { Hooks.none with afterAll := some () }
      checks := [.fresh (plain "a" "common")] }] }

end Stale

end Conformance.Group
