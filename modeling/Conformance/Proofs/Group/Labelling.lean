import Conformance.Proofs.Group.Selection
import Conformance.Proofs.Run.Marks

/-!
How the checks of an aborted group are labelled, as a list of verdicts. Every check that is not
selected is skipped as such. Of the selected ones, the one at the cursor is aborted, the ones after
it are skipped, and the ones before it are left alone.
-/
namespace Conformance.Group

variable {κ : Type}

section Labels

/-- The verdict on the selected check of the given rank. -/
def labelAt (reason : String) (cursor : Option Nat) (rank : Nat) : Option Verdict :=
  match cursor with
  | none => some (.skipped reason)
  | some place =>
    if rank = place then some (.aborted reason)
    else if place < rank then some (.skipped reason)
    else none

def labels (filter : Label.Filter) (reason : String) (cursor : Option Nat) (rank : Nat) :
    List (Member κ) → List (CheckRef × Verdict)
  | [] => []
  | m :: rest =>
    if filter.selects m.2.labels then
      (labelAt reason cursor rank).toList.map (m.1, ·) ++
        labels filter reason cursor (rank + 1) rest
    else (m.1, .skipped notMatching) :: labels filter reason cursor rank rest

def judgeAll : List (CheckRef × Verdict) → Callback κ Unit
  | [] => .done ()
  | (r, verdict) :: rest => (Callback.ask (.judge r verdict)).bind fun _ => judgeAll rest

theorem labelFrom_eq (filter : Label.Filter) (reason : String) (cursor : Option Nat) (rank : Nat)
    (ms : List (Member κ)) :
    labelFrom filter reason cursor rank ms =
      judgeAll (labels filter reason cursor rank ms) := by
  induction ms generalizing rank with
  | nil => rfl
  | cons m rest ih =>
    rw [labelFrom, labels]
    split
    · rw [ih]
      cases cursor with
      | none => rfl
      | some place =>
        simp only [labelAt]
        split
        · rfl
        · split <;> rfl
    · rw [ih]
      rfl

/-- Who is labelled, and how. -/
theorem mem_labels {filter : Label.Filter} {reason : String} {cursor : Option Nat} {rank : Nat}
    {ms : List (Member κ)} {r : CheckRef} {verdict : Verdict} :
    (r, verdict) ∈ labels filter reason cursor rank ms ↔
      (∃ m ∈ ms, m.1 = r ∧ filter.selects m.2.labels = false ∧
        verdict = .skipped notMatching) ∨
      ∃ i m, (selected filter ms)[i]? = some m ∧ m.1 = r ∧
        labelAt reason cursor (rank + i) = some verdict := by
  induction ms generalizing rank with
  | nil => simp [labels, selected]
  | cons m rest ih =>
    rw [labels, selected, List.filter_cons]
    by_cases hselects : filter.selects m.2.labels = true
    · rw [if_pos hselects, if_pos hselects, List.mem_append, ih]
      constructor
      · rintro (hfirst | ⟨n, hn, hout⟩ | ⟨i, n, hn, hsame, hlabel⟩)
        · obtain ⟨v, hv, heq⟩ := List.mem_map.mp hfirst
          cases heq
          exact .inr ⟨0, m, rfl, rfl, Option.mem_toList.mp hv⟩
        · exact .inl ⟨n, List.mem_cons_of_mem m hn, hout⟩
        · exact .inr ⟨i + 1, n, hn, hsame, by rwa [Nat.add_assoc, Nat.add_comm 1] at hlabel⟩
      · rintro (⟨n, hn, hsame, hout, hverdict⟩ | ⟨i, n, hn, hsame, hlabel⟩)
        · rcases List.mem_cons.mp hn with rfl | hn
          · rw [hselects] at hout
            cases hout
          · exact .inr (.inl ⟨n, hn, hsame, hout, hverdict⟩)
        · cases i with
          | zero =>
            cases hn
            refine .inl (List.mem_map.mpr ⟨verdict, Option.mem_toList.mpr hlabel, by rw [hsame]⟩)
          | succ i =>
            refine .inr (.inr ⟨i, n, hn, hsame, ?_⟩)
            rwa [Nat.add_assoc, Nat.add_comm 1]
    · rw [if_neg hselects, if_neg hselects, List.mem_cons, ih]
      constructor
      · rintro (hfirst | ⟨n, hn, hout⟩ | hchosen)
        · cases hfirst
          exact .inl ⟨m, List.mem_cons_self, rfl, Bool.not_eq_true _ ▸ hselects, rfl⟩
        · exact .inl ⟨n, List.mem_cons_of_mem m hn, hout⟩
        · exact .inr hchosen
      · rintro (⟨n, hn, hsame, hout, hverdict⟩ | hchosen)
        · rcases List.mem_cons.mp hn with rfl | hn
          · exact .inl (by rw [hsame, hverdict])
          · exact .inr (.inl ⟨n, hn, hsame, hout, hverdict⟩)
        · exact .inr (.inr hchosen)

theorem labels_refs (filter : Label.Filter) (reason : String) (cursor : Option Nat) (rank : Nat)
    (ms : List (Member κ)) :
    ((labels filter reason cursor rank ms).map Prod.fst).Sublist (ms.map Prod.fst) := by
  induction ms generalizing rank with
  | nil => exact List.Sublist.slnil
  | cons m rest ih =>
    rw [labels, List.map_cons]
    split
    · cases labelAt reason cursor rank with
      | none => exact (ih _).cons _
      | some verdict => exact (ih _).cons_cons _
    · exact (ih _).cons_cons _

/-- What an abort makes of the selected check at a place, where a run was cut off at another. -/
theorem standing_after_labelAt (v : Standing) (reason : String) (place i : Nat) :
    v.after (labelAt reason (some place) i) =
      if i < place then v
      else if i = place then if v.state = .aborted then v else ⟨.aborted, reason⟩
      else v.skip reason := by
  rcases Nat.lt_trichotomy i place with hlt | heq | hgt
  · have hlabel : labelAt reason (some place) i = none := by
      simp [labelAt, Nat.ne_of_lt hlt, Nat.le_of_lt hlt]
    rw [hlabel, if_pos hlt]
    rfl
  · have hlabel : labelAt reason (some place) i = some (.aborted reason) := by
      simp [labelAt, heq]
    rw [hlabel, if_neg (Nat.not_lt_of_ge (Nat.le_of_eq heq.symm)), if_pos heq]
    simp [Standing.after, Standing.take, Standing.ofVerdict?]
  · have hlabel : labelAt reason (some place) i = some (.skipped reason) := by
      simp [labelAt, Nat.ne_of_gt hgt, hgt]
    rw [hlabel, if_neg (Nat.not_lt_of_gt hgt), if_neg (Nat.ne_of_gt hgt)]
    exact v.take_skipped reason

/-- The labels of an abort leave a selected check skipped for this abort or settled, exactly if it
was so before, or if the cursor has not come past the check. -/
theorem skipped_after_labelAt_iff (v : Standing) (reason : String) (cursor : Option Nat) (i : Nat) :
    v.after (labelAt reason cursor i) = ⟨.skipped, reason⟩ ∨
        (v.after (labelAt reason cursor i)).IsSettled ↔
      v = ⟨.skipped, reason⟩ ∨ v.IsSettled ∨ ∀ place, cursor = some place → place ≤ i := by
  have hskip : v.skip reason = ⟨.skipped, reason⟩ ∨ (v.skip reason).IsSettled := by
    by_cases hv : v.IsSettled
    · rw [Standing.skip_of_settled hv]
      exact .inr hv
    · exact .inl (if_neg hv)
  cases cursor with
  | none =>
    have hafter : v.after (labelAt reason none i) = v.skip reason := v.take_skipped reason
    rw [hafter]
    exact iff_of_true hskip (.inr (.inr nofun))
  | some place =>
    rw [standing_after_labelAt]
    rcases Nat.lt_trichotomy i place with hlt | rfl | hgt
    · have hpassed : ¬∀ place', some place = some place' → place' ≤ i :=
        fun hle => absurd (hle place rfl) (Nat.not_le_of_lt hlt)
      rw [if_pos hlt, or_iff_left hpassed]
    · rw [if_neg (Nat.lt_irrefl i), if_pos rfl]
      refine iff_of_true (.inr ?_) (.inr (.inr fun place hplace => ?_))
      · split
        · exact .inr ‹_›
        · exact .inr rfl
      · exact Nat.le_of_eq (Option.some.inj hplace).symm
    · rw [if_neg (Nat.not_lt_of_gt hgt), if_neg (Nat.ne_of_gt hgt)]
      refine iff_of_true hskip (.inr (.inr fun place' hplace => ?_))
      exact Nat.le_of_lt (Option.some.inj hplace ▸ hgt)

end Labels

section Judging

theorem exec_judgeAll (ls : List (CheckRef × Verdict)) (e : Engine κ) :
    (judgeAll ls).exec Request.apply e =
      (.ok (), ls.foldl (fun e l => e.judge l.1 l.2) e) := by
  induction ls generalizing e with
  | nil => rfl
  | cons l rest ih => exact ih _

/-- The verdict on a check that a label brings. -/
def labelOn? (r : CheckRef) (l : CheckRef × Verdict) : Option Verdict :=
  if l.1 = r then some l.2 else none

theorem labelOn?_self (r : CheckRef) (verdict : Verdict) : labelOn? r (r, verdict) = some verdict :=
  if_pos rfl

/-- Of all labels, a check takes those that are on it. -/
theorem standing?_judgeAll (ls : List (CheckRef × Verdict)) (e : Engine κ) (r : CheckRef) :
    (ls.foldl (fun e l => e.judge l.1 l.2) e).standing? r =
      (e.standing? r).map fun v => (ls.filterMap (labelOn? r)).foldl Standing.take v := by
  induction ls generalizing e with
  | nil => exact Option.map_id'.symm
  | cons l rest ih =>
    obtain ⟨r', verdict⟩ := l
    rw [List.foldl_cons, ih, Engine.standing?_judge]
    by_cases hr : r' = r
    · subst hr
      rw [if_pos rfl, List.filterMap_cons_some (labelOn?_self r' verdict), Option.map_map]
      rfl
    · have hnone : labelOn? r (r', verdict) = none := if_neg hr
      rw [if_neg hr, List.filterMap_cons_none hnone]

theorem labelsOn_of_not_mem {ls : List (CheckRef × Verdict)} {r : CheckRef}
    (h : r ∉ ls.map Prod.fst) : ls.filterMap (labelOn? r) = [] := by
  refine List.filterMap_eq_nil_iff.mpr fun l hl => if_neg ?_
  rintro rfl
  exact h (List.mem_map_of_mem hl)

theorem labelsOn_of_mem {ls : List (CheckRef × Verdict)} {r : CheckRef} {verdict : Verdict}
    (hnodup : (ls.map Prod.fst).Nodup) (h : (r, verdict) ∈ ls) :
    ls.filterMap (labelOn? r) = [verdict] := by
  obtain ⟨before, after, rfl⟩ := List.append_of_mem h
  rw [List.map_append, List.map_cons, List.nodup_middle, List.nodup_cons, List.mem_append,
    not_or] at hnodup
  rw [List.filterMap_append, List.filterMap_cons_some (labelOn?_self r verdict),
    labelsOn_of_not_mem hnodup.1.1, labelsOn_of_not_mem hnodup.1.2, List.nil_append]

end Judging

section Whole

/-- The engine after the checks of a group have been labelled. -/
def labelled (g : Nat) (filter : Label.Filter) (reason : String) (e : Engine κ) : Engine κ :=
  (labels filter reason (e.cursorOf g) 0 (membersOf e g)).foldl
    (fun e l => e.judge l.1 l.2) e

theorem exec_labelAborted (g : Nat) (filter : Label.Filter) (reason : String) (e : Engine κ) :
    (labelAborted g filter reason).exec Request.apply e =
      (.ok (), labelled g filter reason e) := by
  have hexec : (labelAborted g filter reason).exec Request.apply e =
      (labelFrom filter reason (e.cursorOf g) 0 (membersOf e g)).exec
        Request.apply e := rfl
  rw [hexec, labelFrom_eq, exec_judgeAll]
  rfl

variable {g : Nat} {filter : Label.Filter} {reason : String} {e : Engine κ} {m : Member κ}

theorem nodup_labels (e : Engine κ) (g : Nat) (filter : Label.Filter) (reason : String)
    (cursor : Option Nat) (rank : Nat) :
    ((labels filter reason cursor rank (membersOf e g)).map Prod.fst).Nodup :=
  (nodup_refs e g).sublist (labels_refs filter reason cursor rank _)

/-- A selected check is labelled once, or left alone. -/
theorem labelsOn_selected {i : Nat} (hm : (selected filter (membersOf e g))[i]? = some m)
    (reason : String) (cursor : Option Nat) :
    (labels filter reason cursor 0 (membersOf e g)).filterMap (labelOn? m.1) =
      (labelAt reason cursor i).toList := by
  cases hlabel : labelAt reason cursor i with
  | some verdict =>
    refine labelsOn_of_mem (nodup_labels e g filter reason cursor 0) (mem_labels.mpr (.inr ?_))
    exact ⟨i, m, hm, rfl, by rwa [Nat.zero_add]⟩
  | none =>
    refine labelsOn_of_not_mem fun hmem => ?_
    obtain ⟨⟨r, verdict⟩, hl, rfl⟩ := List.mem_map.mp hmem
    rcases mem_labels.mp hl with ⟨n, hn, hsame, hother, -⟩ | ⟨j, n, hn, hsame, hj⟩
    · refine not_mem_selected hn hother (hsame ▸ List.mem_map.mpr ⟨m, ?_, rfl⟩)
      exact List.mem_of_getElem? hm
    · rw [← selected_place_unique hm hn hsame.symm, Nat.zero_add, hlabel] at hj
      cases hj

/-- A check that is not selected is labelled once. -/
theorem labelsOn_other (hm : m ∈ membersOf e g) (hout : filter.selects m.2.labels = false)
    (reason : String) (cursor : Option Nat) :
    (labels filter reason cursor 0 (membersOf e g)).filterMap (labelOn? m.1) =
      [.skipped notMatching] :=
  labelsOn_of_mem (nodup_labels e g filter reason cursor 0)
    (mem_labels.mpr (.inl ⟨m, hm, rfl, hout, rfl⟩))

/-- What a selected check is labelled as. -/
theorem standing?_labelled_selected {i : Nat}
    (hm : (selected filter (membersOf e g))[i]? = some m) :
    (labelled g filter reason e).standing? m.1 =
      (e.standing? m.1).map (·.after (labelAt reason (e.cursorOf g) i)) := by
  rw [labelled, standing?_judgeAll, labelsOn_selected hm]
  cases labelAt reason (e.cursorOf g) i <;> rfl

/-- A check that is not selected is skipped as such. -/
theorem standing?_labelled_other (hm : m ∈ membersOf e g)
    (hout : filter.selects m.2.labels = false) :
    (labelled g filter reason e).standing? m.1 =
      (e.standing? m.1).map (·.skip notMatching) := by
  rw [labelled, standing?_judgeAll, labelsOn_other hm hout]
  exact Option.map_congr fun v _ => v.take_skipped notMatching

end Whole

end Conformance.Group
