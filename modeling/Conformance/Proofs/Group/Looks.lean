import Conformance.Proofs.Group.Coverage
import Conformance.Proofs.Group.Policy
import Conformance.Proofs.Group.Within

/-!
How a group run counts its failed checks. It looks at a check once, right after the iteration of
the check and right before it moves its cursor on, and whatever becomes of the check after that is
not counted any more.
-/
namespace Conformance.Group

variable {κ : Type}

section Looks

/-- The run is told the status of the check and moves its cursor on. After that it goes on as
`after` says. -/
def LooksAt (g : Nat) (t : Trail κ) (look : Member κ × Status) (after : Trail κ) : Prop :=
  ∃ before place, t = before ++ ⟨.request (.status look.1.1), look.2⟩ ::
    ⟨.setCursor g (some place), ()⟩ :: after

/-- How many of the checks were found failed. -/
def failures (looks : List (Member κ × Status)) : Nat := looks.countP (·.2.state = .failed)

theorem failures_cons (look : Member κ × Status) (looks : List (Member κ × Status)) :
    failures (look :: looks) = failures looks + if look.2.state = .failed then 1 else 0 := by
  rw [failures, List.countP_cons]
  simp only [decide_eq_true_eq]
  rfl

/-- The run has looked at these checks and no others to count them. -/
structure Counts (g : Nat) (t : Trail κ) (looks : List (Member κ × Status)) (failed : Nat) :
    Prop where
  looked : ∀ look ∈ looks, ∃ after, LooksAt g t look after
  count : failed = failures looks

variable {g : Nat} {t u : Trail κ} {look : Member κ × Status} {after : Trail κ}

theorem LooksAt.prepend (h : LooksAt g t look after) (u : Trail κ) :
    LooksAt g (u ++ t) look after := by
  obtain ⟨before, place, rfl⟩ := h
  exact ⟨u ++ before, place, (List.append_assoc ..).symm⟩

theorem LooksAt.append (h : LooksAt g t look after) (u : Trail κ) :
    LooksAt g (t ++ u) look (after ++ u) := by
  obtain ⟨before, place, rfl⟩ := h
  exact ⟨before, place, List.append_assoc ..⟩

variable {looks : List (Member κ × Status)} {failed : Nat}

theorem Counts.prepend (h : Counts g t looks failed) (u : Trail κ) :
    Counts g (u ++ t) looks failed where
  looked look hlook := by
    obtain ⟨after, hafter⟩ := h.looked look hlook
    exact ⟨after, hafter.prepend u⟩
  count := h.count

theorem Counts.append (h : Counts g t looks failed) (u : Trail κ) :
    Counts g (t ++ u) looks failed where
  looked look hlook := by
    obtain ⟨after, hafter⟩ := h.looked look hlook
    exact ⟨after ++ u, hafter.append u⟩
  count := h.count

theorem counts_nil (g : Nat) (t : Trail κ) : Counts g t [] 0 := ⟨List.forall_mem_nil _, rfl⟩

end Looks

section Runs

variable {b : Behaviour κ} {s : Setting κ} {t : Trail κ} {outcome : Outcome}

theorem counts_runFrom {ms : List (Member κ)} :
    ∀ {index failed : Nat} {t : Trail κ} {outcome : Outcome},
      (runFrom s index failed ms).Goes t (.ok outcome) →
      ∃ looks total, looks.map Prod.fst <+: ms ∧ Counts s.group t looks total ∧
        outcome.failed = failed + total ∧
        (outcome.errors = [] → looks.map Prod.fst = ms ∨ ⟨.stopped s.token, true⟩ ∈ t) := by
  induction ms with
  | nil =>
    intro index failed t outcome h
    cases (Prog.goes_done h).2
    exact ⟨[], 0, List.prefix_refl _, counts_nil _ _, rfl, fun _ => .inl rfl⟩
  | cons m later ih =>
    intro index failed t outcome h
    rw [runFrom_cons] at h
    obtain ⟨stopped, t, rfl, hgone⟩ := Prog.goes_request_bind h
    cases stopped with
    | true =>
      cases (Prog.goes_done hgone).2
      exact ⟨[], 0, List.nil_prefix, counts_nil _ _, rfl, fun _ => .inr List.mem_cons_self⟩
    | false =>
      obtain ⟨t₁, t₂, errors, rfl, -, hrest⟩ := Prog.goes_bind_ok hgone
      cases errors with
      | cons error errors =>
        cases (Prog.goes_done hrest).2
        exact ⟨[], 0, List.nil_prefix, counts_nil _ _, rfl, fun hnone => by cases hnone⟩
      | nil =>
        obtain ⟨status, t₃, rfl, hmoved⟩ := Prog.goes_request_bind hrest
        obtain ⟨_, t₄, rfl, hnext⟩ := Prog.goes_request_bind hmoved
        obtain ⟨looks, total, hlooks, hcounts, htotal, hwhole⟩ := ih hnext
        have hlook : LooksAt s.group (⟨.stopped s.token, false⟩ :: (t₁ ++
            ⟨.request (.status m.1), status⟩ :: ⟨.setCursor s.group (some (index + 1)), ()⟩ :: t₄))
            (m, status) t₄ := ⟨⟨.stopped s.token, false⟩ :: t₁, index + 1, rfl⟩
        have hothers := hcounts.prepend (⟨.stopped s.token, false⟩ :: (t₁ ++
          [⟨.request (.status m.1), status⟩, ⟨.setCursor s.group (some (index + 1)), ()⟩]))
        refine ⟨(m, status) :: looks, _, List.cons_prefix_cons.mpr ⟨rfl, hlooks⟩,
          ⟨List.forall_mem_cons.mpr ⟨⟨t₄, hlook⟩, ?_⟩, rfl⟩, ?_, fun herrors => ?_⟩
        · simpa using hothers.looked
        · rw [htotal, hcounts.count, failures_cons]
          simp only
          split <;> omega
        · exact (hwhole herrors).imp (congrArg (m :: ·)) fun hstopped => by simp [hstopped]

theorem counts_runSelected {first : Member κ} {rest : List (Member κ)}
    (h : (runSelected s first rest).Goes t (.ok outcome)) :
    ∃ looks, looks.map Prod.fst <+: first :: rest ∧ Counts s.group t looks outcome.failed ∧
      (outcome.errors = [] →
        looks.map Prod.fst = first :: rest ∨ ⟨.stopped s.token, true⟩ ∈ t) := by
  rw [runSelected_eq] at h
  obtain ⟨t₁, t₂, inner, rfl, hinner, hclosing⟩ := Prog.goes_bind_ok h
  obtain ⟨t₃, t₄, after, rfl, -, hdone⟩ := Prog.goes_bind_ok hclosing
  cases (Prog.goes_done hdone).2
  obtain ⟨t₅, t₆, before, rfl, -, hrest⟩ := Prog.goes_bind_ok hinner
  cases before with
  | some error =>
    cases (Prog.goes_done hrest).2
    refine ⟨[], List.nil_prefix, counts_nil _ _, fun hnone => ?_⟩
    cases (List.append_eq_nil_iff.mp hnone).1
  | none =>
    obtain ⟨_, t₇, rfl, hloop⟩ := Prog.goes_request_bind hrest
    obtain ⟨looks, total, hlooks, hcounts, htotal, hwhole⟩ := counts_runFrom hloop
    refine ⟨looks, hlooks, ?_, fun hnone => ?_⟩
    · rw [htotal, Nat.zero_add]
      have hall := (hcounts.prepend (t₅ ++ [⟨.setCursor s.group (some 0), ()⟩])).append (t₃ ++ t₄)
      simpa using hall
    · refine (hwhole (List.append_eq_nil_iff.mp hnone).1).imp_right fun hstopped => ?_
      simp [hstopped]

/-- A run that comes to an outcome has read its checks, skipped those that the filter does not
select, and counted the ones that it has looked at, the first ones of those that it has selected. It
found them failed as often as its outcome says. Without an error it has looked at all of them,
unless it found its stop token set. -/
theorem counts_run {g : Nat} {filter : Label.Filter} {token : Nat} {handle : Option AbortHandle}
    (h : (run b g filter token handle).Goes t (.ok outcome)) :
    ∃ checks u looks, t = ⟨.setCursor g none, ()⟩ :: ⟨.request (.checks g), checks⟩ :: u ∧
      (∀ m ∈ members g checks, m ∉ selected filter (members g checks) →
        ⟨.request (.judge m.1 (.skipped notMatching)), ()⟩ ∈ u) ∧
      looks.map Prod.fst <+: selected filter (members g checks) ∧
      Counts g u looks outcome.failed ∧ (outcome.errors = [] →
        looks.map Prod.fst = selected filter (members g checks) ∨
          ⟨.stopped token, true⟩ ∈ u) := by
  obtain ⟨_, t, rfl, hreset⟩ := Prog.goes_request_bind h
  obtain ⟨checks, t, rfl, hread⟩ := Prog.goes_request_bind hreset
  obtain ⟨t₁, t₂, chosen, rfl, hselect, hrest⟩ := Prog.goes_bind_ok hread
  have hskips := skips_select hselect
  cases (goes_select hselect).1
  suffices hcounts : ∃ looks, looks.map Prod.fst <+: selected filter (members g checks) ∧
      Counts g t₂ looks outcome.failed ∧ (outcome.errors = [] →
        looks.map Prod.fst = selected filter (members g checks) ∨
          ⟨.stopped token, true⟩ ∈ t₂) by
    obtain ⟨looks, hlooks, hcounts, hwhole⟩ := hcounts
    refine ⟨checks, _, looks, rfl, fun m hm hout => List.mem_append_left _ (hskips m hm ?_), hlooks,
      hcounts.prepend t₁, fun hnone => (hwhole hnone).imp_right (List.mem_append_right t₁)⟩
    simpa [selected, hm] using hout
  cases hselected : selected filter (members g checks) with
  | nil =>
    rw [hselected] at hrest
    cases (Prog.goes_done hrest).2
    exact ⟨[], List.prefix_refl _, counts_nil _ _, fun _ => .inl rfl⟩
  | cons first rest =>
    rw [hselected] at hrest
    obtain ⟨hooks, t₃, rfl, hnamed⟩ := Prog.goes_request_bind hrest
    obtain ⟨name, t₄, rfl, hrun⟩ := Prog.goes_request_bind hnamed
    obtain ⟨looks, hlooks, hcounts, hwhole⟩ := counts_runSelected hrun
    refine ⟨looks, hlooks, hcounts.prepend [⟨.hooks g, hooks⟩, ⟨.groupName g, name⟩], ?_⟩
    exact fun hnone => (hwhole hnone).imp_right fun hstopped => by simp [hstopped]

end Runs

end Conformance.Group
