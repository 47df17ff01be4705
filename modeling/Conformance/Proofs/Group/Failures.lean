import Conformance.Proofs.Group.Looks
import Conformance.Proofs.Group.Propagation
import Conformance.Proofs.Run.Marks

/-!
Which failures a group run counts. It counts a check as it stands when the run is done with it,
before it goes on to the next one. What a later callback makes of the check, or the policy when the
hook after all checks fails, is not counted any more.
-/
namespace Conformance.Group

variable {κ α : Type}

section Trails

/-- The verdicts on a check that a trail brings. -/
def verdictsBy (t : Trail κ) (r : CheckRef) : List Verdict := t.filterMap (·.1.verdictOn? r)

theorem standing?_exec (p : Worker κ α) {e : Engine κ} {r : CheckRef} {v : Standing}
    (hv : e.standing? r = some v) : (p.exec Action.apply e).2.standing? r =
      some ((verdictsBy (p.trail Action.apply e) r).foldl Standing.take v) := by
  induction p generalizing e v with
  | done value => exact hv
  | panic q => exact hv
  | ask op next ih =>
    have hnext := op.standing?_apply_of_some hv
    rw [Prog.exec, ih _ hnext, Prog.trail, verdictsBy, verdictsBy, List.filterMap_cons]
    simp only
    cases op.verdictOn? r with
    | none => rfl
    | some verdict => rfl

theorem standing_status {e : Engine κ} {r : CheckRef} {v : Standing}
    (hv : e.standing? r = some v) : ((Request.status r).apply e).1.standing = v := by
  obtain ⟨c, hc, rfl⟩ := Option.map_eq_some_iff.mp hv
  rw [Request.apply, hc]

/-- A check at which a worker has looked is what the verdicts after that have made of it. -/
theorem standing?_of_looksAt {p : Worker κ α} {e : Engine κ} {g : Nat}
    {look : Member κ × Status} {after : Trail κ}
    (h : LooksAt g (p.trail Action.apply e) look after) {v : Standing}
    (hv : e.standing? look.1.1 = some v) : (p.exec Action.apply e).2.standing? look.1.1 =
      some ((verdictsBy after look.1.1).foldl Standing.take look.2.standing) := by
  obtain ⟨before, place, htrail⟩ := h
  obtain ⟨⟨r, c⟩, status⟩ := look
  simp only at htrail hv ⊢
  induction before generalizing p e v with
  | nil =>
    cases p with
    | done value => cases htrail
    | panic q => cases htrail
    | ask op next =>
      obtain ⟨hfirst, hrest⟩ := List.cons.inj htrail
      cases hfirst
      have hafter := standing?_exec (next ((Request.status r).apply e).1) hv
      have htail : (next ((Request.status r).apply e).1).trail Action.apply e =
          ⟨.setCursor g (some place), ()⟩ :: after := hrest
      rw [htail] at hafter
      refine hafter.trans ?_
      rw [← standing_status hv]
      rfl
  | cons a before ih =>
    cases p with
    | done value => cases htrail
    | panic q => cases htrail
    | ask op next =>
      obtain ⟨-, hrest⟩ := List.cons.inj htrail
      exact (ih (op.standing?_apply_of_some hv) hrest :)

end Trails

section Failed

/-- The check stands failed. -/
def hasFailed (e : Engine κ) (r : CheckRef) : Bool := (e.standing? r).any (·.state = .failed)

/-- How many of the checks stand failed. -/
def failedAmong (e : Engine κ) (ms : List (Member κ)) : Nat := ms.countP fun m => hasFailed e m.1

variable {e e' : Engine κ} {r : CheckRef} {ms : List (Member κ)}

theorem hasFailed_congr (h : e'.standing? r = e.standing? r) : hasFailed e' r = hasFailed e r := by
  rw [hasFailed, hasFailed, h]

theorem hasFailed_of_settled {v : Standing} (hv : e.standing? r = some v) (h : v.IsSettled) :
    hasFailed e r = false := by
  rw [hasFailed, hv]
  rcases h with h | h <;> simp [h]

/-- A check that was told to be skipped has not failed. -/
theorem hasFailed_of_skip {v : Standing} {reason : String}
    (hv : e.standing? r = some (v.skip reason)) : hasFailed e r = false := by
  by_cases hsettled : v.IsSettled
  · rw [Standing.skip_of_settled hsettled] at hv
    exact hasFailed_of_settled hv hsettled
  · rw [hasFailed, hv, Standing.skip, if_neg hsettled]
    rfl

theorem failedAmong_congr (h : ∀ m ∈ ms, hasFailed e' m.1 = hasFailed e m.1) :
    failedAmong e' ms = failedAmong e ms :=
  List.countP_congr fun m hm => by rw [h m hm]

theorem failedAmong_append (e : Engine κ) (ms ns : List (Member κ)) :
    failedAmong e (ms ++ ns) = failedAmong e ms + failedAmong e ns := List.countP_append

theorem failedAmong_eq_zero (h : ∀ m ∈ ms, hasFailed e m.1 = false) : failedAmong e ms = 0 :=
  List.countP_eq_zero.mpr fun m hm => by simp [h m hm]

/-- If only one check changes, and has not failed any more, the number of failed ones goes down by
one at most. -/
theorem failedAmong_of_one (hnodup : (ms.map Prod.fst).Nodup) (hr : r ∈ ms.map Prod.fst)
    (hothers : ∀ q ≠ r, hasFailed e' q = hasFailed e q) (hone : hasFailed e' r = false) :
    failedAmong e ms = failedAmong e' ms + if hasFailed e r then 1 else 0 := by
  induction ms with
  | nil => cases hr
  | cons m ms ih =>
    obtain ⟨hm, hms⟩ := List.nodup_cons.mp hnodup
    rw [failedAmong, failedAmong, List.countP_cons, List.countP_cons, ← failedAmong, ← failedAmong]
    by_cases hsame : m.1 = r
    · have hrest : failedAmong e' ms = failedAmong e ms :=
        failedAmong_congr fun n hn => hothers _ fun heq => hm (hsame ▸ heq ▸ List.mem_map_of_mem hn)
      rw [hrest, hsame, hone]
      simp
    · have hlater : r ∈ ms.map Prod.fst := by
        rcases List.mem_cons.mp hr with hfirst | hlater
        · exact absurd hfirst.symm hsame
        · exact hlater
      rw [ih hms hlater, hothers _ hsame]
      omega

theorem count_eq (failed : Nat) (m : Member κ) (e : Engine κ) :
    count failed m e = failed + if hasFailed e m.1 then 1 else 0 := by
  rw [count, hasFailed, Engine.standing?, Request.apply]
  cases e.check? m.1 with
  | none => rfl
  | some c =>
    simp only [Option.map_some, Option.any_some, decide_eq_true_eq]
    exact (apply_ite (failed + ·) (c.status.state = .failed) 1 0).symm

end Failed

section Rounds

variable {s : Setting κ} {index failed total : Nat} {ms rest : List (Member κ)}
  {done : List (Member κ × Engine κ)} {e e' : Engine κ}

/-- What rounds count of the checks that they leave failed. -/
theorem Rounds.total_eq (h : Rounds s index failed ms e done total rest e') :
    total = failed + done.countP fun p => hasFailed p.2 p.1.1 := by
  induction h with
  | stay => rfl
  | @round _ failed _ m _ _ _ _ e₁ _ _ _ _ ih =>
    rw [ih, count_eq, List.countP_cons, Nat.add_assoc]
    exact congrArg (failed + ·) (Nat.add_comm _ _)

/-- Where the checks of the rounds stand as their own iterations left them and no other has failed,
the rounds have counted the failed ones. -/
theorem Rounds.total_eq_failedAmong {e'' : Engine κ}
    (h : Rounds s index 0 ms e done total rest e')
    (hdone : ∀ p ∈ done, hasFailed e'' p.1.1 = hasFailed p.2 p.1.1)
    (hrest : ∀ n ∈ rest, hasFailed e'' n.1 = false) : total = failedAmong e'' ms := by
  rw [h.total_eq, Nat.zero_add, h.members, failedAmong_append, failedAmong_eq_zero hrest,
    Nat.add_zero, failedAmong, List.countP_map]
  exact (List.countP_congr fun p hp => by rw [Function.comp_apply, hdone p hp]).symm

end Rounds

section Whole

variable {s : Setting κ} {first : Member κ} {rest : List (Member κ)} {e e' : Engine κ}
  {outcome : Outcome}

theorem Propagated.hasFailed_later {error : GroupError} {done : List (Member κ × Engine κ)}
    {m : Member κ} {later : List (Member κ)} {ready : Engine κ}
    (h : Propagated error done m later ready e') : ∀ n ∈ m :: later, hasFailed e' n.1 = false := by
  refine List.forall_mem_cons.mpr ⟨?_, fun n hn => ?_⟩
  · obtain ⟨w, hw, hsettled⟩ := h.inHand
    exact hasFailed_of_settled hw hsettled
  · obtain ⟨v, -, hskipped⟩ := h.toCome n hn
    exact hasFailed_of_skip hskipped

/-- Up to the hook after all checks the count is that of the checks that stand failed. -/
theorem failed_upToLast (hb : IsLocal s.behaviour)
    (h : (upToLast s first rest).exec Action.apply e = (.ok outcome, e'))
    (hgoes : e'.tokenSet s.token = false) (hfailures : ∀ error ∈ outcome.errors, IsFailure error)
    (hnodup : ((first :: rest).map Prod.fst).Nodup)
    (hthere : ∀ n ∈ first :: rest, ∃ v, e.standing? n.1 = some v) :
    outcome.failed = failedAmong e' (first :: rest) := by
  rcases upToLast_cases h with
    ⟨error, rfl, hhook⟩ | ⟨ready, done, remaining, reached, hready, hrounds, hend⟩
  · have hfailure := hfailures error (List.mem_singleton_self _)
    have hpropagated := propagated_beforeAll hfailure hhook hnodup hthere
    exact (failedAmong_eq_zero hpropagated.hasFailed_later).symm
  · have hthen : ∀ n ∈ first :: rest, ∃ v, (ready.modifyGroup s.group fun group =>
        { group with cursor := some 0 }).standing? n.1 = some v := by
      intro n hn
      obtain ⟨v, hv⟩ := hthere n hn
      obtain ⟨w, hw⟩ := (part_beforeAll hready).exists_standing hv
      exact ⟨w, keeps_setCursor _ _ _ _ w hw⟩
    have hleft := hrounds.exists_standing hthen
    generalize outcome.errors = errors at hend hfailures
    cases hend with
    | finished =>
      refine hrounds.total_eq_failedAmong (fun p hp => ?_) (List.forall_mem_nil _)
      obtain ⟨v, hv⟩ := hleft p hp
      exact hasFailed_congr ((hrounds.keeps_done hb.each hnodup p hp v hv).trans hv.symm)
    | stopped _ _ hstop =>
      rw [hstop] at hgoes
      cases hgoes
    | @failed m later _ _ _ _ hbad hne =>
      have hlast := List.getLast?_eq_some_getLast hne
      have hpropagated :=
        propagated_iteration hb hrounds hbad hlast hfailures hnodup hthen
      refine hrounds.total_eq_failedAmong (fun p hp => ?_) hpropagated.hasFailed_later
      obtain ⟨v, hv, hkept⟩ := hpropagated.past p hp
      exact hasFailed_congr (hkept.trans hv.symm)

/-- After that the policy may take one failed check off, the last, when the hook after all checks
fails. -/
theorem failedAmong_closing {total : Outcome}
    (h : (closing s first rest outcome).exec Action.apply e = (.ok total, e'))
    (hnodup : ((first :: rest).map Prod.fst).Nodup)
    (hthere : ∀ n ∈ first :: rest, ∃ v, e.standing? n.1 = some v) :
    let left := afterHook s.behaviour s.hooks.afterAll
      (.afterAll s.group ((first :: rest).map Prod.fst)) e
    total.failed = outcome.failed ∧ failedAmong left (first :: rest) =
      failedAmong e' (first :: rest) +
        if total.errors ≠ outcome.errors ∧ hasFailed left (lastOf first rest) then 1 else 0 := by
  intro left
  have hmem := lastOf_mem first rest
  obtain ⟨after, e₁, hhook, hdone⟩ := Prog.exec_bind_ok h
  cases hdone
  refine ⟨rfl, ?_⟩
  cases after with
  | none =>
    rw [runHook_eq] at hhook
    have hsame : e' = left := by
      cases part_of_exec hhook with
      | well hattempt =>
        simp only [left]
        rw [← exec_tryHook s.behaviour "afterAll", hattempt]
    rw [hsame]
    simp
  | some error =>
    obtain ⟨n, hn, hlast⟩ := List.mem_map.mp hmem
    obtain ⟨hothers, v, reason, -, hv⟩ := closing_standing h (by simp) (hlast ▸ hthere n hn)
    rw [failedAmong_of_one hnodup hmem (fun q hq => hasFailed_congr (hothers q hq))
      (hasFailed_of_settled hv (v.isSettled_take_error reason))]
    simp [left]

end Whole

section Run

variable {b : Behaviour κ} {g : Nat} {filter : Label.Filter} {token : Nat}
  {handle : Option AbortHandle} {e e' : Engine κ} {outcome : Outcome}

/-- The checks that a run has looked at, the first ones of those that are selected, and what the
later verdicts have made of them. -/
theorem exists_looks
    (h : (run b g filter token handle).exec Action.apply e = (.ok outcome, e')) :
    ∃ looks : List (Member κ × Status), looks.map Prod.fst <+: selected filter (membersOf e g) ∧
      outcome.failed = failures looks ∧ ∀ look ∈ looks, ∃ after,
        LooksAt g ((run b g filter token handle).trail Action.apply e) look after ∧
        e'.standing? look.1.1 =
          some ((verdictsBy after look.1.1).foldl Standing.take look.2.standing) := by
  have hgoes := Prog.goes_trail Action.apply (run b g filter token handle) e
  rw [h] at hgoes
  obtain ⟨checks, u, looks, htrail, -, hlooks, hcounts, -⟩ := counts_run hgoes
  have hchecks : members g checks = membersOf e g := by
    obtain ⟨-, hrest⟩ := List.cons.inj htrail
    obtain ⟨hread, -⟩ := List.cons.inj hrest
    obtain rfl := eq_of_heq (Sigma.mk.inj hread).2
    have hreset : (e.modifyGroup g fun group => { group with cursor := none }).checksOf g =
        e.checksOf g := by
      refine e.checksOf_modifyGroup g ?_ g
      intro group
      rfl
    exact congrArg (fun checks => members g (checks.map Registered.check)) hreset
  rw [hchecks] at hlooks
  refine ⟨looks, hlooks, hcounts.count, fun look hlook => ?_⟩
  obtain ⟨after, hafter⟩ := hcounts.looked look hlook
  replace hafter := hafter.prepend [⟨.setCursor g none, ()⟩, ⟨.request (.checks g), checks⟩]
  rw [List.cons_append, List.singleton_append, ← htrail] at hafter
  have hmem := hlooks.subset (List.mem_map_of_mem hlook)
  obtain ⟨v, hv⟩ := exists_standing_of_mem (List.mem_filter.mp hmem).1
  have hstanding := standing?_of_looksAt hafter hv
  rw [h] at hstanding
  exact ⟨after, hafter, hstanding⟩

/-- For every group, filter and behaviour: a run counts its failed checks in passing. It counts
those of the selected checks, from the first one on, that it found failed when it was done with
them, and each of these stands at the end as the verdicts after that have left it. If callbacks set
results on the checks only that they are handed, nothing was stopped and no request to abort came
back, the number is that of the checks that stand failed when the hook after all checks is called.
If this hook fails, the last check is put in error, and though it may have been counted it stands
failed no more. So the number is that of the checks that stand failed in the end if the hook judges
none of them, except that it is greater by one when the hook fails and the last check had failed. -/
theorem failures_are_counted_in_passing
    (h : (run b g filter token handle).exec Action.apply e = (.ok outcome, e')) :
    (∃ looks : List (Member κ × Status), looks.map Prod.fst <+: selected filter (membersOf e g) ∧
      outcome.failed = failures looks ∧ ∀ look ∈ looks, ∃ after,
        LooksAt g ((run b g filter token handle).trail Action.apply e) look after ∧
        e'.standing? look.1.1 =
          some ((verdictsBy after look.1.1).foldl Standing.take look.2.standing)) ∧
    (IsLocal b → e'.tokenSet token = false → (∀ error ∈ outcome.errors, IsFailure error) →
      ∀ first rest, selected filter (membersOf e g) = first :: rest →
        let s := settingOn b g token handle (selecting g filter e)
        ∃ inner reached, (upToLast s first rest).exec Action.apply (selecting g filter e) =
            (.ok inner, reached) ∧
          let left := afterHook b s.hooks.afterAll
            (.afterAll g ((first :: rest).map Prod.fst)) reached
          let undone := if outcome.errors ≠ inner.errors ∧ hasFailed left (lastOf first rest) then 1
            else 0
          outcome.failed = failedAmong reached (first :: rest) ∧
          failedAmong left (first :: rest) = failedAmong e' (first :: rest) + undone ∧
          ((∀ m ∈ first :: rest, Engine.Keeps m.1 reached left) →
            outcome.failed = failedAmong e' (first :: rest) + undone)) := by
  refine ⟨exists_looks h, ?_⟩
  intro hb hgoes hfailures first rest hchosen s
  rw [exec_run hchosen, runSelected_eq] at h
  obtain ⟨inner, reached, hinner, hclosing⟩ := Prog.exec_bind_ok h
  have hnodup : ((first :: rest).map Prod.fst).Nodup := hchosen ▸ nodup_selected e g filter
  have hthere : ∀ n ∈ first :: rest, ∃ v, (selecting g filter e).standing? n.1 = some v := by
    intro n hn
    rw [← hchosen] at hn
    exact exists_standing_selecting (List.mem_filter.mp hn).1
  have hreached : ∀ n ∈ first :: rest, ∃ v, reached.standing? n.1 = some v := by
    intro n hn
    obtain ⟨v, hv⟩ := hthere n hn
    have hexists := exists_standing_exec (upToLast s first rest) hv
    rwa [hinner] at hexists
  obtain ⟨hsame, hclosed⟩ := failedAmong_closing hclosing hnodup hreached
  have hunset : reached.tokenSet token = false := by
    refine Bool.eq_false_iff.mpr fun hset => ?_
    have hstays := Prog.has_of_apply
      (K := fun e e' : Engine κ => e.tokenSet token = true → e'.tokenSet token = true)
      ⟨fun _ h => h, fun h h' hset => h' (h hset)⟩ (fun op _ => op.tokenSet_apply)
      (closing s first rest inner) reached trivial hset
    rw [hclosing, hgoes] at hstays
    cases hstays
  have hsubset : inner.errors ⊆ outcome.errors := by
    obtain ⟨after, e₁, -, hdone⟩ := Prog.exec_bind_ok hclosing
    cases hdone
    exact List.subset_append_left _ _
  have hcounted := failed_upToLast (s := s) hb hinner hunset
    (fun error herror => hfailures error (hsubset herror)) hnodup hthere
  refine ⟨inner, reached, hinner, hsame.trans hcounted, hclosed, fun hkeeps => ?_⟩
  refine (hsame.trans hcounted).trans (Eq.trans ?_ hclosed)
  refine (failedAmong_congr fun m hm => ?_).symm
  obtain ⟨v, hv⟩ := hreached m hm
  exact hasFailed_congr ((hkeeps m hm v hv).trans hv.symm)

end Run

section Tardy

/-- The one check has failed when the hook is called. It is counted and stands failed no more in the
end. -/
theorem failures_are_counted_in_passing_hooked :
    ∃ e' reached, (run tardy 0 common 0 none).exec Action.apply hooked =
        (.ok ⟨[.failure "g" "afterAll function unexpected error"], 1⟩, e') ∧
      (∃ looks : List (Member Unit × Status), looks.map Prod.fst <+: [commonMember 0 "a"] ∧
        1 = failures looks) ∧
      1 = failedAmong reached [commonMember 0 "a"] ∧ failedAmong e' [commonMember 0 "a"] = 0 := by
  have hrun : (run tardy 0 common 0 none).exec Action.apply hooked =
      (.ok ⟨[.failure "g" "afterAll function unexpected error"], 1⟩, _) := rfl
  obtain ⟨⟨looks, hlooks, hcounted, -⟩, hlocal⟩ := failures_are_counted_in_passing hrun
  obtain ⟨inner, reached, -, hreached, -⟩ :=
    hlocal tardy_isLocal rfl (List.forall_mem_singleton.mpr trivial) (commonMember 0 "a") [] rfl
  exact ⟨_, reached, hrun, ⟨looks, hlooks, hcounted⟩, hreached, rfl⟩

end Tardy

end Conformance.Group
