import Conformance.Proofs.Group.Labelling
import Conformance.Proofs.Run.GroupChecks

/-!
What labelling the checks of an aborted group does to the engine as a whole. A check is labelled by
its rank, which is the number of selected checks before it. Of the checks only their states and the
reasons for them change, and nothing else about the engine does: labels bring no warning, so nothing
is logged and no time passes. To label once more changes nothing at all.
-/
namespace Conformance

variable {κ : Type}

/-- The verdicts that labels bring, of which no check logs a warning. -/
def Verdict.IsLabel : Verdict → Prop
  | skipped _ | aborted _ => True
  | _ => False

namespace Status

/-- The same status with another standing. -/
def withStanding (s : Status) (v : Standing) : Status :=
  { s with state := v.state, reason := v.reason }

variable {verdict : Verdict}

theorem apply_label (s : Status) (h : verdict.IsLabel) :
    s.apply verdict = s.withStanding (s.standing.take verdict) := by
  obtain ⟨state, reason, details, startedAt, endedAt⟩ := s
  cases verdict with
  | skipped reason' =>
    simp only [apply, settle, Standing.take, Standing.ofVerdict?, standing, withStanding]
    cases state <;> simp
  | aborted reason' =>
    simp only [apply, Standing.take, Standing.ofVerdict?, standing, withStanding]
    cases state <;> simp
  | _ => exact absurd h id

theorem apply_apply_label (s : Status) (h : verdict.IsLabel) :
    (s.apply verdict).apply verdict = s.apply verdict := by
  obtain ⟨state, reason, details, startedAt, endedAt⟩ := s
  cases verdict with
  | skipped reason' =>
    simp only [apply, settle]
    cases state <;> simp
  | aborted reason' =>
    simp only [apply]
    cases state <;> simp
  | _ => exact absurd h id

/-- A label, where there is one, changes the standing and leaves the rest of the status. -/
theorem after_label (s : Status) {label? : Option Verdict} (h : ∀ label ∈ label?, label.IsLabel) :
    s.after label? = s.withStanding (s.standing.after label?) := by
  cases label? with
  | none => rfl
  | some label => exact s.apply_label (h label rfl)

theorem warning?_label (s : Status) (id : String) (h : verdict.IsLabel) :
    s.warning? id verdict = none := by
  unfold warning?
  cases verdict with
  | skipped | aborted => cases s.state <;> rfl
  | _ => exact False.elim h

end Status

namespace Engine

variable {verdict : Verdict}

/-- A label changes the status of its check and nothing else. -/
theorem judge_label (e : Engine κ) (r : CheckRef) (h : verdict.IsLabel) :
    e.judge r verdict = e.modifyCheck r fun c => { c with status := c.status.apply verdict } := by
  unfold judge
  cases hcheck : e.check? r with
  | none =>
    refine (modifyCheck_eq_self fun c hc => ?_).symm
    rw [hcheck] at hc
    cases hc
  | some c => simp only [Status.warning?_label _ _ h]

theorem judge_eq_self {e : Engine κ} {r : CheckRef} (h : verdict.IsLabel)
    (hc : ∀ c, e.check? r = some c → c.status.apply verdict = c.status) :
    e.judge r verdict = e := by
  rw [judge_label e r h]
  refine modifyCheck_eq_self fun c hcheck => ?_
  rw [hc c hcheck]

end Engine

namespace Group

section Ranks

/-- How many of the checks before a place are selected. -/
def rankAt (filter : Label.Filter) (checks : List (Registered κ)) (i : Nat) : Nat :=
  (checks.take i).countP fun c => filter.selects c.check.labels

theorem getElem?_membersFrom (g index : Nat) (checks : List (Check κ)) (i : Nat) :
    (membersFrom g index checks)[i]? = checks[i]?.map fun c => (⟨g, index + i⟩, c) := by
  induction checks generalizing index i with
  | nil => rfl
  | cons c rest ih =>
    cases i with
    | zero => rfl
    | succ i =>
      rw [membersFrom, List.getElem?_cons_succ, List.getElem?_cons_succ, ih, Nat.add_assoc,
        Nat.add_comm 1]

theorem getElem?_membersOf (e : Engine κ) (g i : Nat) :
    (membersOf e g)[i]? = (e.checksOf g)[i]?.map fun c => (⟨g, i⟩, c.check) := by
  rw [membersOf, members, getElem?_membersFrom, List.getElem?_map, Option.map_map, Nat.zero_add]
  rfl

/-- An element that stays when a list is filtered has as many before it as stay of those before. -/
theorem getElem?_filter_countP {α : Type} {p : α → Bool} {l : List α} {i : Nat} {a : α}
    (h : l[i]? = some a) (ha : p a = true) : (l.filter p)[(l.take i).countP p]? = some a := by
  obtain ⟨hi, rfl⟩ := List.getElem?_eq_some_iff.mp h
  have hsplit : l.filter p = (l.take i).filter p ++ l[i] :: (l.drop (i + 1)).filter p := by
    rw [← List.filter_cons_of_pos ha, ← List.filter_append, List.getElem_cons_drop,
      List.take_append_drop]
  rw [hsplit, List.countP_eq_length_filter, List.getElem?_append_right (Nat.le_refl _),
    Nat.sub_self, List.getElem?_cons_zero]

/-- The rank of a check is its place among the selected ones. -/
theorem selected_rankAt {e : Engine κ} {g i : Nat} {c : Registered κ} {filter : Label.Filter}
    (hc : (e.checksOf g)[i]? = some c) (hselects : filter.selects c.check.labels = true) :
    (selected filter (membersOf e g))[rankAt filter (e.checksOf g) i]? =
      some (⟨g, i⟩, c.check) := by
  have hm : (membersOf e g)[i]? = some (⟨g, i⟩, c.check) := by
    rw [getElem?_membersOf, hc]
    rfl
  have hrank : rankAt filter (e.checksOf g) i =
      ((membersOf e g).take i).countP fun m => filter.selects m.2.labels := by
    have hchecks : (membersOf e g).map Prod.snd = (e.checksOf g).map Registered.check :=
      membersFrom_checks g 0 _
    have hcount : ((membersOf e g).take i).countP (fun m => filter.selects m.2.labels) =
        (((membersOf e g).map Prod.snd).take i).countP fun d => filter.selects d.labels := by
      rw [← List.map_take, List.countP_map]
      rfl
    rw [hcount, hchecks, ← List.map_take, List.countP_map]
    rfl
  rw [hrank]
  exact getElem?_filter_countP hm hselects

end Ranks

section Judging

variable {g : Nat} {ls : List (CheckRef × Verdict)} {e : Engine κ}

theorem check?_judgeAll (hls : ∀ l ∈ ls, l.2.IsLabel) (e : Engine κ) (r : CheckRef) :
    (ls.foldl (fun e l => e.judge l.1 l.2) e).check? r = (e.check? r).map fun c =>
      { c with status := (ls.filterMap (labelOn? r)).foldl Status.apply c.status } := by
  induction ls generalizing e with
  | nil => exact Option.map_id'.symm
  | cons l rest ih =>
    obtain ⟨r', verdict⟩ := l
    obtain ⟨hlabel, hrest⟩ := List.forall_mem_cons.mp hls
    rw [List.foldl_cons, ih hrest, Engine.judge_label e r' hlabel, Engine.check?_modifyCheck]
    by_cases hr : r' = r
    · subst hr
      rw [if_pos rfl, List.filterMap_cons_some (labelOn?_self r' verdict), Option.map_map]
      rfl
    · have hnone : labelOn? r (r', verdict) = none := if_neg hr
      rw [if_neg hr, List.filterMap_cons_none hnone]

/-- Labels on the checks of a group change these checks and nothing else. -/
theorem exists_judgeAll_eq (hls : ∀ l ∈ ls, l.1.group = g ∧ l.2.IsLabel) (e : Engine κ) :
    ∃ checks, checks.length = (e.checksOf g).length ∧
      ls.foldl (fun e l => e.judge l.1 l.2) e = e.withChecks g checks := by
  induction ls generalizing e with
  | nil => exact ⟨e.checksOf g, rfl, (e.withChecks_self g).symm⟩
  | cons l rest ih =>
    obtain ⟨⟨rfl, hlabel⟩, hrest⟩ := List.forall_mem_cons.mp hls
    rw [List.foldl_cons, Engine.judge_label e l.1 hlabel, Engine.modifyCheck_eq_withChecks]
    have hlength : ((e.checksOf l.1.group).modify l.1.index fun c =>
        { c with status := c.status.apply l.2 }).length = (e.checksOf l.1.group).length :=
      List.length_modify ..
    obtain ⟨checks, hchecks, hall⟩ := ih hrest (e.withChecks l.1.group
      ((e.checksOf l.1.group).modify l.1.index fun c => { c with status := c.status.apply l.2 }))
    rw [Engine.checksOf_withChecks hlength, hlength] at hchecks
    exact ⟨checks, hchecks, hall.trans (e.withChecks_withChecks ..)⟩

end Judging

section Whole

variable {g : Nat} {filter : Label.Filter} {reason : String} {e : Engine κ} {m : Member κ}

theorem isLabel_of_labelAt {cursor : Option Nat} {rank : Nat} {verdict : Verdict}
    (h : labelAt reason cursor rank = some verdict) : verdict.IsLabel := by
  unfold labelAt at h
  cases cursor with
  | none =>
    cases h
    trivial
  | some place =>
    simp only at h
    split at h
    · cases h
      trivial
    · split at h
      · cases h
        trivial
      · cases h

theorem isLabel_of_mem_labels {cursor : Option Nat} {rank : Nat} {l : CheckRef × Verdict}
    (h : l ∈ labels filter reason cursor rank (membersOf e g)) : l.1.group = g ∧ l.2.IsLabel := by
  obtain ⟨r, verdict⟩ := l
  rcases mem_labels.mp h with ⟨m, hm, rfl, -, rfl⟩ | ⟨i, m, hm, rfl, hlabel⟩
  · exact ⟨(mem_membersOf.mp hm).1, trivial⟩
  · have hmember := (List.mem_filter.mp (List.mem_of_getElem? hm)).1
    exact ⟨(mem_membersOf.mp hmember).1, isLabel_of_labelAt hlabel⟩

theorem check?_labelled (g : Nat) (filter : Label.Filter) (reason : String) (e : Engine κ)
    (r : CheckRef) : (labelled g filter reason e).check? r = (e.check? r).map fun c =>
      { c with status := ((labels filter reason (e.cursorOf g) 0 (membersOf e g)).filterMap
        (labelOn? r)).foldl Status.apply c.status } :=
  check?_judgeAll (fun _ hl => (isLabel_of_mem_labels hl).2) e r

theorem exists_labelled_eq (g : Nat) (filter : Label.Filter) (reason : String) (e : Engine κ) :
    ∃ checks, checks.length = (e.checksOf g).length ∧
      labelled g filter reason e = e.withChecks g checks :=
  exists_judgeAll_eq (fun _ hl => isLabel_of_mem_labels hl) e

theorem cursorOf_labelled (g : Nat) (filter : Label.Filter) (reason : String) (e : Engine κ) :
    (labelled g filter reason e).cursorOf g = e.cursorOf g := by
  obtain ⟨checks, -, hlabelled⟩ := exists_labelled_eq g filter reason e
  rw [hlabelled]
  refine e.cursorOf_modifyGroup g ?_ g
  intro group
  rfl

theorem membersOf_labelled (g : Nat) (filter : Label.Filter) (reason : String) (e : Engine κ) :
    membersOf (labelled g filter reason e) g = membersOf e g := by
  refine congrArg (members g) (List.ext_getElem? fun i => ?_)
  have hcheck := check?_labelled g filter reason e ⟨g, i⟩
  rw [Engine.check?_eq, Engine.check?_eq] at hcheck
  rw [List.getElem?_map, hcheck, Option.map_map, List.getElem?_map]
  rfl

/-- Labels that have been given already bring nothing new. -/
theorem labelled_labelled (g : Nat) (filter : Label.Filter) (reason : String) (e : Engine κ) :
    labelled g filter reason (labelled g filter reason e) = labelled g filter reason e := by
  have hstays (ls : List (CheckRef × Verdict)) {e : Engine κ}
      (h : ∀ l ∈ ls, e.judge l.1 l.2 = e) : ls.foldl (fun e l => e.judge l.1 l.2) e = e := by
    induction ls with
    | nil => rfl
    | cons l rest ih =>
      obtain ⟨hl, hrest⟩ := List.forall_mem_cons.mp h
      rw [List.foldl_cons, hl, ih hrest]
  rw [labelled, cursorOf_labelled, membersOf_labelled]
  refine hstays _ ?_
  rintro ⟨r, verdict⟩ hl
  have hlabel := (isLabel_of_mem_labels hl).2
  refine Engine.judge_eq_self hlabel fun c hc => ?_
  rw [check?_labelled, labelsOn_of_mem (nodup_labels e g filter reason _ 0) hl] at hc
  obtain ⟨d, -, rfl⟩ := Option.map_eq_some_iff.mp hc
  exact d.status.apply_apply_label hlabel

/-- What an abort makes of the standing of a check with these labels and of this rank. -/
structure LabelledAs (filter : Label.Filter) (reason : String) (cursor : Option Nat)
    (labels : List String) (rank : Nat) (old new : Standing) : Prop where
  other : filter.selects labels = false → new = old.skip notMatching
  unstarted : filter.selects labels = true → cursor = none → new = old.skip reason
  earlier (place : Nat) : filter.selects labels = true → cursor = some place → rank < place →
    new = old
  current : filter.selects labels = true → cursor = some rank →
    new = if old.state = .aborted then old else ⟨.aborted, reason⟩
  later (place : Nat) : filter.selects labels = true → cursor = some place → place < rank →
    new = old.skip reason
  settled : old.IsSettled → new.state ≠ .skipped

theorem not_skipped_of_isSettled {v : Standing} (h : v.IsSettled) : v.state ≠ .skipped := by
  intro hskipped
  rcases h with h | h <;> rw [h] at hskipped <;> cases hskipped

section Labels

variable {cursor : Option Nat} {labels : List String} {rank : Nat} (v : Standing)

theorem labelledAs_other (h : filter.selects labels = false) :
    LabelledAs filter reason cursor labels rank v (v.skip notMatching) := by
  have hnot : ¬filter.selects labels = true := by rw [h]; exact nofun
  exact {
    other := fun _ => rfl
    unstarted := fun hselects => absurd hselects hnot
    earlier := fun _ hselects => absurd hselects hnot
    current := fun hselects => absurd hselects hnot
    later := fun _ hselects => absurd hselects hnot
    settled := fun hv => by
      rw [Standing.skip_of_settled hv]
      exact not_skipped_of_isSettled hv }

theorem labelledAs_selected (h : filter.selects labels = true) :
    LabelledAs filter reason cursor labels rank v (v.after (labelAt reason cursor rank)) where
  other hother := by
    rw [h] at hother
    cases hother
  unstarted _ hnone := by
    subst hnone
    exact v.take_skipped reason
  earlier place _ hplace hlt := by
    rw [hplace, standing_after_labelAt, if_pos hlt]
  current _ hcurrent := by
    rw [hcurrent, standing_after_labelAt, if_neg (Nat.lt_irrefl rank), if_pos rfl]
  later place _ hplace hlt := by
    rw [hplace, standing_after_labelAt, if_neg (Nat.lt_asymm hlt), if_neg (Nat.ne_of_gt hlt)]
  settled hv := by
    cases labelAt reason cursor rank with
    | none => exact not_skipped_of_isSettled hv
    | some label => exact not_skipped_of_isSettled (hv.take label)

end Labels

/-- What a label makes of the check at a place. -/
theorem exists_check?_labelled (filter : Label.Filter) (reason : String) {i : Nat}
    {c : Registered κ} (hc : (e.checksOf g)[i]? = some c) :
    ∃ v, (labelled g filter reason e).check? ⟨g, i⟩ =
        some { c with status := c.status.withStanding v } ∧
      LabelledAs filter reason (e.cursorOf g) c.check.labels (rankAt filter (e.checksOf g) i)
        c.status.standing v := by
  have hcheck : e.check? ⟨g, i⟩ = some c := by rw [Engine.check?_eq, hc]
  have hm : (⟨g, i⟩, c.check) ∈ membersOf e g :=
    List.mem_of_getElem? (i := i) (by rw [getElem?_membersOf, hc]; rfl)
  have hall := check?_labelled g filter reason e ⟨g, i⟩
  rw [hcheck, Option.map_some] at hall
  cases hselects : filter.selects c.check.labels with
  | false =>
    refine ⟨_, hall.trans ?_, labelledAs_other _ hselects⟩
    have hlabel : (Verdict.skipped notMatching).IsLabel := trivial
    rw [labelsOn_other hm hselects, List.foldl_cons, List.foldl_nil, c.status.apply_label hlabel,
      Standing.take_skipped]
  | true =>
    refine ⟨_, hall.trans ?_, labelledAs_selected _ hselects⟩
    rw [labelsOn_selected (selected_rankAt hc hselects),
      ← c.status.after_label fun _ hlabel => isLabel_of_labelAt hlabel]
    cases labelAt reason (e.cursorOf g) (rankAt filter (e.checksOf g) i) <;> rfl

/-- For every group in whatever state, every filter, reason and cursor, to label the checks of the
group changes of them the state and the reason only, and of everything else nothing. What it makes
of a check is told by its rank and the cursor. To label them again changes nothing. -/
theorem labels_go_by_rank (g : Nat) (filter : Label.Filter) (reason : String) (e : Engine κ) :
    ∃ checks, (labelAborted g filter reason).exec Request.apply e =
        (.ok (), e.withChecks g checks) ∧
      checks.length = (e.checksOf g).length ∧
      (∀ i c, (e.checksOf g)[i]? = some c → ∃ v,
        checks[i]? = some { c with status := c.status.withStanding v } ∧
        LabelledAs filter reason (e.cursorOf g) c.check.labels (rankAt filter (e.checksOf g) i)
          c.status.standing v) ∧
      (labelAborted g filter reason).exec Request.apply (e.withChecks g checks) =
        (.ok (), e.withChecks g checks) := by
  obtain ⟨checks, hlength, hlabelled⟩ := exists_labelled_eq g filter reason e
  refine ⟨checks, ?_, hlength, fun i c hc => ?_, ?_⟩
  · rw [exec_labelAborted, hlabelled]
  · obtain ⟨v, hv, hlabel⟩ := exists_check?_labelled filter reason hc
    refine ⟨v, ?_, hlabel⟩
    rwa [Engine.check?_eq, hlabelled, Engine.checksOf_withChecks hlength] at hv
  · rw [← hlabelled, exec_labelAborted, labelled_labelled]

/-- Of six checks the second and the fourth are not selected, so that the third has rank one. -/
example :
    let check (label : String) (state : CheckState) : Registered Unit :=
      { Registered.fresh (.new "a" [label]) with status := { Status.start with state := state } }
    let e : Engine Unit := { (Engine.start 0 : Engine Unit) with
      groups := [{ Group.fresh "g" with
        cursor := some 1
        checks := [check "net" .failed, check "disk" .aborted, check "net" .error,
          check "disk" .passed, check "net" .error, check "net" .passed] }] }
    let after := ((labelAborted 0 ⟨"net", .label "net"⟩ "stop").exec Request.apply e).2
    (after.checksOf 0).map (·.status.standing) =
      [⟨.failed, ""⟩, ⟨.aborted, ""⟩, ⟨.aborted, "stop"⟩, ⟨.skipped, notMatching⟩, ⟨.error, ""⟩,
        ⟨.skipped, "stop"⟩] := by
  decide

end Whole

end Group

end Conformance
