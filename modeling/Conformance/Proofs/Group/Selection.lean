import Conformance.Group.Running
import Conformance.Proofs.Run.Standing
import Mathlib.Data.List.Nodup

/-!
The members of a group that a filter selects, and skipping those that it does not. Members have
different places, and each of them has a standing.
-/
namespace Conformance.Group

variable {κ : Type}

section Skipping

/-- The engine with the check skipped, if its standing allows for that. -/
def skipped (reason : String) (e : Engine κ) (m : Member κ) : Engine κ :=
  (e.log m.1 .info ("Skipping check " ++ m.2.id ++ ", reason: " ++ reason)).judge m.1
    (.skipped reason)

theorem exec_skipCheck (m : Member κ) (reason : String) (e : Engine κ) :
    (skipCheck m reason).exec Action.apply e = (.ok (), skipped reason e m) := rfl

theorem exec_skipAll (reason : String) (ms : List (Member κ)) (e : Engine κ) :
    (skipAll reason ms).exec Action.apply e = (.ok (), ms.foldl (skipped reason) e) := by
  induction ms generalizing e with
  | nil => rfl
  | cons m rest ih =>
    rw [skipAll, Prog.bind_eq, Prog.exec_bind, exec_skipCheck]
    exact ih _

theorem standing?_skipped (reason : String) (e : Engine κ) (m : Member κ) (r : CheckRef) :
    (skipped reason e m).standing? r =
      if m.1 = r then (e.standing? r).map (·.skip reason) else e.standing? r := by
  rw [skipped, Engine.standing?_judge, Engine.standing?_log]
  simp only [Standing.take_skipped]

theorem standing?_skipAll (reason : String) (ms : List (Member κ)) (e : Engine κ) (r : CheckRef) :
    (ms.foldl (skipped reason) e).standing? r =
      if r ∈ ms.map Prod.fst then (e.standing? r).map (·.skip reason) else e.standing? r := by
  induction ms generalizing e with
  | nil => rfl
  | cons m rest ih =>
    rw [List.foldl_cons, ih, standing?_skipped]
    simp only [List.map_cons, List.mem_cons]
    by_cases hm : m.1 = r
    · simp only [hm, if_true, true_or]
      split
      · rw [Option.map_map]
        exact Option.map_congr fun v _ => v.skip_skip reason reason
      · rfl
    · have hne : r ≠ m.1 := fun h => hm h.symm
      simp only [if_neg hm, hne, false_or]

end Skipping

section Selecting

/-- The members that the filter selects, in order. -/
def selected (filter : Label.Filter) (ms : List (Member κ)) : List (Member κ) :=
  ms.filter fun m => filter.selects m.2.labels

def membersOf (e : Engine κ) (g : Nat) : List (Member κ) :=
  members g ((e.checksOf g).map Registered.check)

/-- The engine on which the selected checks are run: the others are skipped. -/
def selecting (g : Nat) (filter : Label.Filter) (e : Engine κ) : Engine κ :=
  ((membersOf e g).filter fun m => !filter.selects m.2.labels).foldl (skipped notMatching)
    (e.modifyGroup g fun group => { group with cursor := none })

theorem exec_select (filter : Label.Filter) (ms : List (Member κ)) (e : Engine κ) :
    (select filter ms).exec Action.apply e = (.ok (ms.filter fun m => filter.selects m.2.labels),
      (ms.filter fun m => !filter.selects m.2.labels).foldl (skipped notMatching) e) := by
  induction ms generalizing e with
  | nil => rfl
  | cons m rest ih =>
    by_cases hselects : filter.selects m.2.labels = true
    · rw [select, if_pos hselects, Prog.bind_eq, Prog.exec_bind_of_ok (ih e)]
      simp [hselects, Prog.exec]
    · rw [select, if_neg hselects, Prog.bind_eq, Prog.exec_bind_of_ok (exec_skipCheck _ _ _), ih]
      simp [hselects]

theorem membersFrom_refs (g index : Nat) (checks : List (Check κ)) :
    (membersFrom g index checks).map Prod.fst =
      (List.range' index checks.length).map (CheckRef.mk g) := by
  induction checks generalizing index with
  | nil => rfl
  | cons c rest ih =>
    rw [membersFrom, List.map_cons, ih, List.length_cons, List.range'_succ, List.map_cons]

theorem membersFrom_checks (g index : Nat) (checks : List (Check κ)) :
    (membersFrom g index checks).map Prod.snd = checks := by
  induction checks generalizing index with
  | nil => rfl
  | cons c rest ih => exact congrArg (c :: ·) (ih (index + 1))

theorem mem_membersFrom {g index : Nat} {checks : List (Check κ)} {m : Member κ} :
    m ∈ membersFrom g index checks ↔
      m.1.group = g ∧ index ≤ m.1.index ∧ checks[m.1.index - index]? = some m.2 := by
  obtain ⟨⟨group, place⟩, c⟩ := m
  induction checks generalizing index with
  | nil => simp [membersFrom]
  | cons d rest ih =>
    rw [membersFrom, List.mem_cons, ih]
    simp only [Prod.mk.injEq, CheckRef.mk.injEq]
    constructor
    · rintro (⟨⟨hgroup, hplace⟩, hc⟩ | ⟨hgroup, hle, hc⟩)
      · exact ⟨hgroup, by omega, by rw [hplace, Nat.sub_self, hc]; rfl⟩
      · have hstep : place - index = place - (index + 1) + 1 := by omega
        exact ⟨hgroup, by omega, by rw [hstep]; exact hc⟩
    · rintro ⟨hgroup, hle, hc⟩
      by_cases hplace : place = index
      · rw [hplace, Nat.sub_self] at hc
        exact .inl ⟨⟨hgroup, hplace⟩, (Option.some.inj hc).symm⟩
      · have hstep : place - index = place - (index + 1) + 1 := by omega
        rw [hstep] at hc
        exact .inr ⟨hgroup, by omega, hc⟩

/-- The members of a group are its checks with their places. -/
theorem mem_membersOf {e : Engine κ} {g : Nat} {m : Member κ} :
    m ∈ membersOf e g ↔ m.1.group = g ∧ e.definition? m.1 = some m.2 := by
  rw [membersOf, members, mem_membersFrom, Engine.definition?_eq]
  simp only [Nat.zero_le, true_and, Nat.sub_zero, List.getElem?_map]
  refine and_congr_right ?_
  rintro rfl
  rfl

theorem exists_standing_iff {e : Engine κ} {r : CheckRef} :
    (∃ v, e.standing? r = some v) ↔ ∃ c, e.definition? r = some c := by
  unfold Engine.standing? Engine.definition?
  cases e.check? r with
  | none => simp
  | some c => simp

theorem nodup_members (g : Nat) (checks : List (Check κ)) :
    ((members g checks).map Prod.fst).Nodup := by
  rw [members, membersFrom_refs]
  refine List.Pairwise.map _ ?_ List.nodup_range'
  rintro i j hne h
  exact hne (CheckRef.mk.inj h).2

theorem nodup_refs (e : Engine κ) (g : Nat) : ((membersOf e g).map Prod.fst).Nodup :=
  nodup_members g _

theorem nodup_selected (e : Engine κ) (g : Nat) (filter : Label.Filter) :
    ((selected filter (membersOf e g)).map Prod.fst).Nodup :=
  (nodup_refs e g).sublist (List.filter_sublist.map _)

/-- A check has one place among the selected ones. -/
theorem selected_place_unique {e : Engine κ} {g : Nat} {filter : Label.Filter} {i j : Nat}
    {m n : Member κ} (hm : (selected filter (membersOf e g))[i]? = some m)
    (hn : (selected filter (membersOf e g))[j]? = some n) (hsame : m.1 = n.1) : i = j := by
  have hlt : i < ((selected filter (membersOf e g)).map Prod.fst).length := by
    rw [List.length_map]
    exact (List.getElem?_eq_some_iff.mp hm).1
  refine (List.getElem?_inj hlt (nodup_selected e g filter)).mp ?_
  rw [List.getElem?_map, List.getElem?_map, hm, hn, Option.map_some, Option.map_some, hsame]

/-- A member that is not selected has the place of no selected one. -/
theorem not_mem_selected {e : Engine κ} {g : Nat} {filter : Label.Filter} {n : Member κ}
    (hn : n ∈ membersOf e g) (hout : filter.selects n.2.labels = false) :
    n.1 ∉ (selected filter (membersOf e g)).map Prod.fst := by
  intro hmem
  obtain ⟨m, hm, hsame⟩ := List.mem_map.mp hmem
  obtain ⟨hm, hselects⟩ := List.mem_filter.mp hm
  have heq := List.inj_on_of_nodup_map (nodup_refs e g) hm hn hsame
  rw [heq, hout] at hselects
  cases hselects

theorem exists_standing_of_mem {e : Engine κ} {g : Nat} {m : Member κ} (h : m ∈ membersOf e g) :
    ∃ v, e.standing? m.1 = some v :=
  exists_standing_iff.mpr ⟨m.2, (mem_membersOf.mp h).2⟩

theorem isSome_group?_of_mem {e : Engine κ} {g : Nat} {m : Member κ} (h : m ∈ membersOf e g) :
    (e.group? g).isSome := by
  cases hgroup : e.group? g with
  | some group => rfl
  | none =>
    rw [membersOf, Engine.checksOf, hgroup] at h
    cases h

theorem standing?_selecting (g : Nat) (filter : Label.Filter) (e : Engine κ) (r : CheckRef) :
    (selecting g filter e).standing? r =
      if r ∈ ((membersOf e g).filter fun m => !filter.selects m.2.labels).map Prod.fst then
        (e.standing? r).map (·.skip notMatching)
      else e.standing? r := by
  have hcursor : (e.modifyGroup g fun group => { group with cursor := none }).standing? r =
      e.standing? r := by
    refine e.standing?_modifyGroup g ?_ r
    intro group
    rfl
  rw [selecting, standing?_skipAll, hcursor]

theorem exists_standing_selecting {e : Engine κ} {g : Nat} {filter : Label.Filter} {m : Member κ}
    (h : m ∈ membersOf e g) : ∃ v, (selecting g filter e).standing? m.1 = some v := by
  obtain ⟨v, hv⟩ := exists_standing_of_mem h
  rw [standing?_selecting, hv]
  split
  · exact ⟨_, rfl⟩
  · exact ⟨v, rfl⟩

end Selecting

section Growing

theorem membersFrom_append (g index : Nat) (checks later : List (Check κ)) :
    membersFrom g index (checks ++ later) =
      membersFrom g index checks ++ membersFrom g (index + checks.length) later := by
  induction checks generalizing index with
  | nil => rfl
  | cons c rest ih =>
    rw [List.cons_append, membersFrom, ih, membersFrom, List.cons_append, List.length_cons]
    congr 3
    omega

theorem isPrefix_members {checks checks' : List (Check κ)} (h : checks <+: checks') (g : Nat) :
    members g checks <+: members g checks' := by
  obtain ⟨later, rfl⟩ := h
  rw [members, members, membersFrom_append]
  exact List.prefix_append _ _

theorem isPrefix_checks {e e' : Engine κ} (h : e.Grows e') (g : Nat) :
    (e.checksOf g).map Registered.check <+: (e'.checksOf g).map Registered.check := by
  have hdefinition (e : Engine κ) (i : Nat) :
      ((e.checksOf g).map Registered.check)[i]? = e.definition? ⟨g, i⟩ := by
    rw [Engine.definition?_eq, List.getElem?_map]
  refine List.prefix_iff_getElem?.mpr ?_
  intro i hi
  rw [hdefinition]
  refine h ⟨g, i⟩ _ ?_
  rw [← hdefinition, List.getElem?_eq_getElem hi]

theorem isPrefix_selected {checks checks' : List (Check κ)} (h : checks <+: checks') (g : Nat)
    (filter : Label.Filter) :
    selected filter (members g checks) <+: selected filter (members g checks') :=
  (isPrefix_members h g).filter _

/-- The rank of a selected check stays as it is when checks are added. -/
theorem selected_of_isPrefix {checks checks' : List (Check κ)} (h : checks <+: checks') {g : Nat}
    {filter : Label.Filter} {i : Nat} {m : Member κ}
    (hm : (selected filter (members g checks))[i]? = some m) :
    (selected filter (members g checks'))[i]? = some m := by
  obtain ⟨further, hfurther⟩ := isPrefix_selected h g filter
  rw [← hfurther, List.getElem?_append_left (List.getElem?_eq_some_iff.mp hm).1, hm]

end Growing

end Conformance.Group
