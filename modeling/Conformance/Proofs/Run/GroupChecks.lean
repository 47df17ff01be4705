import Conformance.Proofs.Run.Marks

/-!
Engines that differ in the checks of one group only. Whatever is done to single checks of a group
comes to the engine with other checks in this group, and everything else about it as it was.
-/
namespace Conformance

variable {κ : Type}

theorem modify_eq_self {α : Type} {l : List α} {i : Nat} {f : α → α}
    (h : ∀ a, l[i]? = some a → f a = a) : l.modify i f = l := by
  refine List.ext_getElem? fun j => ?_
  rw [List.getElem?_modify]
  by_cases hij : i = j
  · subst hij
    cases ha : l[i]? with
    | none => rfl
    | some a => simp [h a ha]
  · simp [hij]

namespace Engine

variable {e : Engine κ} {g : Nat} {checks : List (Registered κ)}

/-- The engine with other checks in a group. -/
def withChecks (e : Engine κ) (g : Nat) (checks : List (Registered κ)) : Engine κ :=
  e.modifyGroup g fun group => { group with checks := checks }

theorem check?_eq (e : Engine κ) (r : CheckRef) :
    e.check? r = (e.checksOf r.group)[r.index]? := by
  have hcheck : e.check? r = (e.group? r.group).bind fun group => group.checks[r.index]? := rfl
  rw [hcheck, checksOf]
  cases e.group? r.group <;> rfl

theorem withChecks_self (e : Engine κ) (g : Nat) : e.withChecks g (e.checksOf g) = e := by
  rw [withChecks, modifyGroup, modify_eq_self]
  intro group hgroup
  rw [checksOf, group?, hgroup]

theorem withChecks_withChecks (e : Engine κ) (g : Nat) (checks later : List (Registered κ)) :
    (e.withChecks g checks).withChecks g later = e.withChecks g later := by
  simp only [withChecks, modifyGroup, List.modify_modify_eq]
  rfl

theorem modifyCheck_eq_withChecks (e : Engine κ) (r : CheckRef)
    (f : Registered κ → Registered κ) :
    e.modifyCheck r f = e.withChecks r.group ((e.checksOf r.group).modify r.index f) := by
  have hgroups : e.groups.modify r.group
        (fun group => { group with checks := group.checks.modify r.index f }) =
      e.groups.modify r.group
        (fun group => { group with checks := (e.checksOf r.group).modify r.index f }) := by
    refine List.ext_getElem? fun i => ?_
    rw [List.getElem?_modify, List.getElem?_modify]
    by_cases hi : r.group = i
    · subst hi
      rw [checksOf, group?]
      cases e.groups[r.group]? <;> rfl
    · simp [hi]
  rw [modifyCheck, modifyGroup, hgroups, withChecks, modifyGroup]

theorem modifyCheck_eq_self {r : CheckRef} {f : Registered κ → Registered κ}
    (h : ∀ c, e.check? r = some c → f c = c) : e.modifyCheck r f = e := by
  rw [modifyCheck_eq_withChecks, modify_eq_self, withChecks_self]
  exact fun c hc => h c (by rw [check?_eq, hc])

/-- A group that is not there has no checks, and gets none. -/
theorem checksOf_withChecks (h : checks.length = (e.checksOf g).length) :
    (e.withChecks g checks).checksOf g = checks := by
  unfold withChecks checksOf at *
  rw [group?_modifyGroup, if_pos rfl]
  cases hgroup : e.group? g with
  | none =>
    rw [hgroup] at h
    exact (List.length_eq_zero_iff.mp h).symm
  | some group => rfl

end Engine

end Conformance
