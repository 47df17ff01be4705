import Conformance.Proofs.Group.Labelling
import Conformance.Proofs.Report.Recording
import Conformance.Proofs.Run.Scheduling

/-!
How a run goes from group to group, told from the trail of the thread that runs all groups. Each
group is left out, because the run has been aborted before or its deadline has passed, or its worker
is spawned and waited for. The first wait that ends with an abort, or the first group that is left
out, decides for all groups after it: none of them is spawned any more, the checks of all of them
are labelled with the reason of the first abort, and this reason is the one that is reported.
-/
namespace Conformance.Run

open Conformance.Group

variable {κ α : Type}

abbrev MainTrail (κ : Type) := List (Prog.Exchange (@Move.Resp κ))

section Callbacks

/-- An exchange of a callback as one of the thread that runs all groups. -/
def embedded (a : Prog.Exchange (@Request.Resp κ)) : Prog.Exchange (@Move.Resp κ) :=
  ⟨.act (.request a.1), a.2⟩

theorem goes_ofCallback {p : Callback κ α} {t : MainTrail κ} {x : Except Panic α}
    (h : (ofCallback p).Goes t x) : ∃ u, p.Goes u x ∧ t = u.map embedded := by
  induction p generalizing t with
  | done value =>
    obtain ⟨rfl, rfl⟩ := Prog.goes_done h
    exact ⟨[], .done value, rfl⟩
  | panic q =>
    obtain ⟨rfl, rfl⟩ := Prog.goes_panic h
    exact ⟨[], .panic q, rfl⟩
  | ask op next ih =>
    obtain ⟨answer, t, rfl, hnext⟩ := Prog.goes_ask h
    obtain ⟨u, hgoes, rfl⟩ := ih answer hnext
    exact ⟨⟨op, answer⟩ :: u, .ask hgoes, rfl⟩

theorem goes_judgeAll {ls : List (CheckRef × Verdict)}
    {t : List (Prog.Exchange (@Request.Resp κ))} {x : Except Panic Unit}
    (h : (judgeAll ls).Goes t x) : t = ls.map fun l => ⟨.judge l.1 l.2, ()⟩ := by
  induction ls generalizing t with
  | nil => exact (Prog.goes_done h).1
  | cons l rest ih =>
    obtain ⟨_, t, rfl, hrest⟩ := Prog.goes_request_bind h
    rw [ih hrest]
    rfl

/-- Whoever labels the checks of a group reads the cursor and the checks, and then judges them. -/
theorem goes_labelAborted {g : Nat} {filter : Label.Filter} {reason : String}
    {t : List (Prog.Exchange (@Request.Resp κ))} {x : Except Panic Unit}
    (h : (labelAborted g filter reason).Goes t x) :
    ∃ cursor checks, t = ⟨.cursor g, cursor⟩ :: ⟨.checks g, checks⟩ ::
      (labels filter reason cursor 0 (members g checks)).map fun l => ⟨.judge l.1 l.2, ()⟩ := by
  obtain ⟨cursor, u, rfl, hread⟩ := Prog.goes_request_bind h
  obtain ⟨checks, u, rfl, hlabels⟩ := Prog.goes_request_bind hread
  rw [labelFrom_eq] at hlabels
  exact ⟨cursor, checks, by rw [goes_judgeAll hlabels]⟩

end Callbacks

section Visits

/-- The checks of a group are labelled for an abort, by the cursor that is read. -/
def labelTrail (filter : Label.Filter) (g : Nat) (reason : String) (cursor : Option Nat)
    (checks : List (Check κ)) : MainTrail κ :=
  ⟨.act (.request (.cursor g)), cursor⟩ :: ⟨.act (.request (.checks g)), checks⟩ ::
    (labels filter reason cursor 0 (members g checks)).map fun l =>
      ⟨.act (.request (.judge l.1 l.2)), ()⟩

/-- How a run deals with a group when it is the turn of the group. -/
inductive Visit (p : Plan κ) (g : Nat) (s : Progress) : MainTrail κ → Progress → Prop
  | left {time : Nat} {reason : String} {cursor : Option Nat} {checks : List (Check κ)}
      (h : s.abort = some reason) :
      Visit p g s (⟨.act .now, time⟩ :: labelTrail p.filter g reason cursor checks) s
  | expired {time : Nat} {cursor : Option Nat} {checks : List (Check κ)} (h : s.abort = none)
      (hpast : isPast p.deadline time = true) :
      Visit p g s (⟨.act .now, time⟩ :: labelTrail p.filter g timeoutReason cursor checks)
        { s with abort := some timeoutReason }
  | interrupted {time token : Nat} {reason : String} {cursor : Option Nat}
      {checks : List (Check κ)} (h : s.abort = none) :
      Visit p g s (⟨.act .now, time⟩ :: ⟨.act (.newToken g), token⟩ ::
        ⟨.spawn g (worker p.behaviour p.run g p.filter token), ()⟩ ::
        ⟨.await g p.deadline, .abort reason⟩ :: ⟨.act (.setToken token), ()⟩ ::
        labelTrail p.filter g reason cursor checks) { s with abort := some reason }
  | completed {time token : Nat} {outcome : Outcome} (h : s.abort = none) :
      Visit p g s [⟨.act .now, time⟩, ⟨.act (.newToken g), token⟩,
        ⟨.spawn g (worker p.behaviour p.run g p.filter token), ()⟩,
        ⟨.await g p.deadline, .done outcome⟩]
        { s with errors := s.errors ++ outcome.errors, failed := s.failed + outcome.failed }

variable {p : Plan κ} {g : Nat} {gs : List Nat} {s s' : Progress}
  {missing : Option Catalog.MissingEntry} {t : MainTrail κ}

theorem goes_labelGroup {reason : String} (h : (labelGroup p s g reason).Goes t (.ok s')) :
    (∃ cursor checks, t = labelTrail p.filter g reason cursor checks) ∧
      s' = { s with abort := some reason } := by
  obtain ⟨t₁, t₂, _, rfl, hlabel, hdone⟩ := Prog.goes_bind_ok h
  obtain ⟨rfl, hs⟩ := Prog.goes_done hdone
  cases hs
  obtain ⟨u, hgoes, rfl⟩ := goes_ofCallback hlabel
  obtain ⟨cursor, checks, rfl⟩ := goes_labelAborted hgoes
  rw [List.append_nil]
  refine ⟨⟨cursor, checks, ?_⟩, rfl⟩
  simp only [List.map_cons, List.map_map]
  rfl

theorem visit_of_goes (h : (runGroup p s g).Goes t (.ok s')) : Visit p g s t s' := by
  obtain ⟨abort, errors, failed, results⟩ := s
  cases abort with
  | some reason =>
    obtain ⟨time, t, rfl, hlabel⟩ := Prog.goes_request_bind h
    obtain ⟨⟨cursor, checks, rfl⟩, rfl⟩ := goes_labelGroup hlabel
    exact .left rfl
  | none =>
    rw [runGroup_eq] at h
    obtain ⟨time, t, rfl, hrest⟩ := Prog.goes_request_bind h
    split at hrest
    · obtain ⟨⟨cursor, checks, rfl⟩, rfl⟩ := goes_labelGroup hrest
      exact .expired rfl ‹_›
    · obtain ⟨token, t, rfl, hready⟩ := Prog.goes_request_bind hrest
      obtain ⟨_, t, rfl, hspawned⟩ := Prog.goes_request_bind hready
      obtain ⟨wait, t, rfl, hclosed⟩ := Prog.goes_request_bind hspawned
      cases wait with
      | done outcome =>
        obtain ⟨rfl, hs⟩ := Prog.goes_done hclosed
        cases hs
        exact .completed rfl
      | abort reason =>
        obtain ⟨_, t, rfl, hlabel⟩ := Prog.goes_request_bind hclosed
        obtain ⟨⟨cursor, checks, rfl⟩, rfl⟩ := goes_labelGroup hlabel
        exact .interrupted rfl

/-- A group is visited and recorded, and the groups after it follow if every check had an entry. -/
theorem goes_runGroups_cons {g : Nat} (h : (runGroups p s (g :: gs)).Goes t (.ok (s', missing))) :
    ∃ t₁ t₂ t₃ s₁ results first, t = t₁ ++ (t₂ ++ t₃) ∧ Visit p g s t₁ s₁ ∧
      (ofCallback (Recording.recordGroup p.catalog s₁.results g)).Goes t₂ (.ok (results, first)) ∧
      ((first ≠ none ∧ missing = first ∧ s' = { s₁ with results := results } ∧ t₃ = []) ∨
        (first = none ∧
          (runGroups p { s₁ with results := results } gs).Goes t₃ (.ok (s', missing)))) := by
  obtain ⟨t₁, u, s₁, rfl, hgroup, hrest⟩ := Prog.goes_bind_ok h
  obtain ⟨t₂, t₃, ⟨results, first⟩, rfl, hrecord, hlast⟩ := Prog.goes_bind_ok hrest
  refine ⟨t₁, t₂, t₃, s₁, results, first, rfl, visit_of_goes hgroup, hrecord, ?_⟩
  cases first with
  | some first =>
    obtain ⟨rfl, hs⟩ := Prog.goes_done hlast
    cases hs
    exact .inl ⟨nofun, rfl, rfl, rfl⟩
  | none => exact .inr ⟨rfl, hlast⟩

end Visits

section Labels

/-- The verdict on a check that an exchange brings. -/
def verdictOf? (r : CheckRef) : Prog.Exchange (@Move.Resp κ) → Option Verdict
  | ⟨.act op, _⟩ => op.verdictOn? r
  | _ => none

def verdictsOn (r : CheckRef) (t : MainTrail κ) : List Verdict := t.filterMap (verdictOf? r)

/-- No check of the group is judged. -/
def SparesGroup (g : Nat) (t : MainTrail κ) : Prop := ∀ r, r.group = g → verdictsOn r t = []

/-- The checks of the group are labelled, and not judged but for that. -/
def LabelledOnce (filter : Label.Filter) (g : Nat) (reason : String) (t : MainTrail κ) : Prop :=
  ∃ cursor checks before after,
    t = before ++ (labelTrail filter g reason cursor checks ++ after) ∧
      SparesGroup g before ∧ SparesGroup g after

theorem verdictsOn_append (r : CheckRef) (t u : MainTrail κ) :
    verdictsOn r (t ++ u) = verdictsOn r t ++ verdictsOn r u := List.filterMap_append

variable {p : Plan κ} {g : Nat} {gs : List Nat} {s s' : Progress} {filter : Label.Filter}
  {reason : String} {missing : Option Catalog.MissingEntry} {t u : MainTrail κ}

theorem SparesGroup.append (ht : SparesGroup g t) (hu : SparesGroup g u) :
    SparesGroup g (t ++ u) := by
  intro r hr
  rw [verdictsOn_append, ht r hr, hu r hr, List.nil_append]

theorem SparesGroup.cons {a : Prog.Exchange (@Move.Resp κ)} (ha : ∀ r, verdictOf? r a = none)
    (ht : SparesGroup g t) : SparesGroup g (a :: t) :=
  fun r hr => (List.filterMap_cons_none (ha r)).trans (ht r hr)

theorem sparesGroup_nil (g : Nat) : SparesGroup (κ := κ) g [] := fun _ _ => rfl

theorem LabelledOnce.append (h : LabelledOnce filter g reason t) (hu : SparesGroup g u) :
    LabelledOnce filter g reason (t ++ u) := by
  obtain ⟨cursor, checks, before, after, rfl, hbefore, hafter⟩ := h
  refine ⟨cursor, checks, before, after ++ u, ?_, hbefore, hafter.append hu⟩
  simp only [List.append_assoc]

theorem LabelledOnce.prepend (h : LabelledOnce filter g reason t) (hu : SparesGroup g u) :
    LabelledOnce filter g reason (u ++ t) := by
  obtain ⟨cursor, checks, before, after, rfl, hbefore, hafter⟩ := h
  refine ⟨cursor, checks, u ++ before, after, ?_, hu.append hbefore, hafter⟩
  simp only [List.append_assoc]

theorem verdictsOn_labelTrail (filter : Label.Filter) (g : Nat) (reason : String)
    (cursor : Option Nat) (checks : List (Check κ)) (r : CheckRef) :
    verdictsOn r (labelTrail filter g reason cursor checks) =
      (labels filter reason cursor 0 (members g checks)).filterMap (labelOn? r) :=
  List.filterMap_map

theorem sparesGroup_labelTrail {g' : Nat} (hne : g' ≠ g) (filter : Label.Filter)
    (reason : String) (cursor : Option Nat) (checks : List (Check κ)) :
    SparesGroup g (labelTrail filter g' reason cursor checks) := by
  intro r hr
  rw [verdictsOn_labelTrail]
  refine labelsOn_of_not_mem fun hmem => hne ?_
  obtain ⟨m, hm, rfl⟩ := List.mem_map.mp ((labels_refs filter reason cursor 0 _).subset hmem)
  rw [← (mem_membersFrom.mp hm).1, hr]

/-- What is read for the labels of a group, and the verdicts that they bring. -/
theorem LabelledOnce.exists_reads (h : LabelledOnce filter g reason t) :
    ∃ cursor checks, ⟨.act (.request (.cursor g)), cursor⟩ ∈ t ∧
      ⟨.act (.request (.checks g)), checks⟩ ∈ t ∧ ∀ r, r.group = g →
        verdictsOn r t =
          (labels filter reason cursor 0 (members g checks)).filterMap (labelOn? r) := by
  obtain ⟨cursor, checks, before, after, rfl, hbefore, hafter⟩ := h
  refine ⟨cursor, checks, by simp [labelTrail], by simp [labelTrail], fun r hr => ?_⟩
  rw [verdictsOn_append, verdictsOn_append, hbefore r hr, hafter r hr, List.nil_append,
    List.append_nil, verdictsOn_labelTrail]

/-- A group that is visited judges no checks of others. -/
theorem Visit.sparesGroup {g' : Nat} (h : Visit p g' s t s') (hne : g' ≠ g) :
    SparesGroup g t := by
  cases h with
  | left => exact (sparesGroup_labelTrail hne _ _ _ _).cons fun _ => rfl
  | expired => exact (sparesGroup_labelTrail hne _ _ _ _).cons fun _ => rfl
  | interrupted =>
    refine SparesGroup.cons (fun _ => rfl) (.cons (fun _ => rfl) (.cons (fun _ => rfl) ?_))
    refine .cons (fun _ => rfl) (.cons (fun _ => rfl) ?_)
    exact sparesGroup_labelTrail hne _ _ _ _
  | completed => exact fun _ _ => rfl

/-- A group that is left out is labelled once. -/
theorem labelledOnce_of_left {time : Nat} {cursor : Option Nat} {checks : List (Check κ)}
    (hu : SparesGroup g u) :
    LabelledOnce filter g reason
      (⟨.act .now, time⟩ :: labelTrail filter g reason cursor checks ++ u) :=
  ⟨cursor, checks, [⟨.act .now, time⟩], u, rfl, fun _ _ => rfl, hu⟩

end Labels

section Aborts

/-- The group and the reason of an abort that an exchange shows: the wait for the group has ended
with an abort, or its checks are about to be labelled. -/
def abortMark? : Prog.Exchange (@Move.Resp κ) → Option (Nat × String)
  | ⟨.await g _, .abort reason⟩ => some (g, reason)
  | ⟨.act (.request (.cursor g)), _⟩ => some (g, timeoutReason)
  | _ => none

/-- Where and why the run was aborted first, if it was. When the checks of a group are labelled
though no wait has ended with an abort before, the deadline has passed before the group began. -/
def abortOf (t : MainTrail κ) : Option (Nat × String) := t.findSome? abortMark?

def started? : Prog.Exchange (@Move.Resp κ) → Option Nat
  | ⟨.spawn g _, _⟩ => some g
  | _ => none

/-- The groups whose workers were spawned. -/
def started (t : MainTrail κ) : List Nat := t.filterMap started?

theorem abortOf_append (t u : MainTrail κ) : abortOf (t ++ u) = (abortOf t).or (abortOf u) :=
  List.findSome?_append

theorem started_append (t u : MainTrail κ) : started (t ++ u) = started t ++ started u :=
  List.filterMap_append

variable {p : Plan κ} {g : Nat} {gs : List Nat} {s s' : Progress}
  {missing : Option Catalog.MissingEntry} {t : MainTrail κ}

theorem started_labelTrail (filter : Label.Filter) (g : Nat) (reason : String)
    (cursor : Option Nat) (checks : List (Check κ)) :
    started (labelTrail filter g reason cursor checks) = [] := by
  refine List.filterMap_eq_nil_iff.mpr ?_
  refine List.forall_mem_cons.mpr ⟨rfl, List.forall_mem_cons.mpr ⟨rfl, ?_⟩⟩
  intro a ha
  obtain ⟨l, -, rfl⟩ := List.mem_map.mp ha
  rfl

/-- The exchange neither starts a group, nor shows an abort, nor judges a check. -/
def IsQuiet (a : Prog.Exchange (@Move.Resp κ)) : Prop :=
  started? a = none ∧ abortMark? a = none ∧ ∀ r, verdictOf? r a = none

theorem quiet_of_forall (h : ∀ a ∈ t, IsQuiet a) :
    started t = [] ∧ abortOf t = none ∧ ∀ i, SparesGroup i t :=
  ⟨List.filterMap_eq_nil_iff.mpr fun a ha => (h a ha).1,
    List.findSome?_eq_none_iff.mpr fun a ha => (h a ha).2.1,
    fun _ r _ => List.filterMap_eq_nil_iff.mpr fun a ha => (h a ha).2.2 r⟩

theorem quiet_recordGroup {catalog : Catalog} {results : Results}
    {y : Results × Option Catalog.MissingEntry}
    (h : (ofCallback (Recording.recordGroup catalog results g)).Goes t (.ok y)) :
    started t = [] ∧ abortOf t = none ∧ ∀ i, SparesGroup i t := by
  obtain ⟨u, hgoes, rfl⟩ := goes_ofCallback h
  refine quiet_of_forall fun a ha => ?_
  obtain ⟨⟨op, answer⟩, hmem, rfl⟩ := List.mem_map.mp ha
  have hasks := (Recording.asks_recordGroup catalog results g).goes hgoes _ hmem
  cases op with
  | cursor => exact absurd hasks id
  | judge => exact absurd hasks id
  | _ => exact ⟨rfl, rfl, fun _ => rfl⟩

theorem sparesGroup_runGroups (h : (runGroups p s gs).Goes t (.ok (s', missing))) (hg : g ∉ gs) :
    SparesGroup g t := by
  induction gs generalizing s t with
  | nil =>
    obtain ⟨rfl, -⟩ := Prog.goes_done h
    exact sparesGroup_nil g
  | cons g' gs ih =>
    obtain ⟨hne, hrest⟩ := not_or.mp (List.mem_cons.not.mp hg)
    obtain ⟨t₁, t₂, t₃, s₁, results, first, rfl, hvisit, hrecord, hend⟩ := goes_runGroups_cons h
    obtain ⟨-, -, hrecording⟩ := quiet_recordGroup hrecord
    refine (hvisit.sparesGroup (Ne.symm hne)).append ((hrecording g).append ?_)
    rcases hend with ⟨-, -, -, rfl⟩ | ⟨-, hlater⟩
    · exact sparesGroup_nil g
    · exact ih hlater hrest

theorem infix_last (t₁ t₂ t₃ : MainTrail κ) : t₃ <:+: t₁ ++ (t₂ ++ t₃) :=
  ((List.suffix_append t₂ t₃).trans (List.suffix_append t₁ _)).isInfix

/-- Once a run has been aborted, every group is left out and labelled with the same reason. -/
theorem left_of_goes (h : (runGroups p s gs).Goes t (.ok (s', missing))) (hgs : gs.Nodup)
    {reason : String} (habort : s.abort = some reason) :
    s'.abort = some reason ∧ started t = [] ∧
      (missing = none → ∀ g ∈ gs, LabelledOnce p.filter g reason t) := by
  induction gs generalizing s t with
  | nil =>
    obtain ⟨rfl, hs⟩ := Prog.goes_done h
    cases hs
    exact ⟨habort, rfl, fun _ => List.forall_mem_nil _⟩
  | cons g gs ih =>
    obtain ⟨hg, hnodup⟩ := List.nodup_cons.mp hgs
    obtain ⟨t₁, t₂, t₃, s₁, results, first, rfl, hvisit, hrecord, hend⟩ := goes_runGroups_cons h
    obtain ⟨hquiet, -, hrecording⟩ := quiet_recordGroup hrecord
    -- No group comes twice, so the labels of a group are not followed by others of its own.
    have hspares : ∀ i ∈ gs, SparesGroup i t₁ := by
      intro i hi
      refine hvisit.sparesGroup ?_
      rintro rfl
      exact hg hi
    cases hvisit with
    | expired hnone => rw [hnone] at habort; cases habort
    | interrupted hnone => rw [hnone] at habort; cases habort
    | completed hnone => rw [hnone] at habort; cases habort
    | @left time _ cursor checks hleft =>
      cases hleft.symm.trans habort
      have hfirst : started (⟨.act .now, time⟩ :: labelTrail p.filter g reason cursor checks) =
          [] := started_labelTrail p.filter g reason cursor checks
      rw [started_append, started_append, hfirst, hquiet]
      rcases hend with ⟨hmissing, rfl, rfl, rfl⟩ | ⟨-, hlater⟩
      · exact ⟨habort, rfl, fun hnone => absurd hnone hmissing⟩
      · obtain ⟨hkept, hnobody, hlabelled⟩ := ih hlater hnodup habort
        refine ⟨hkept, by rw [hnobody]; rfl, fun hnone => List.forall_mem_cons.mpr ⟨?_, ?_⟩⟩
        · exact labelledOnce_of_left ((hrecording g).append (sparesGroup_runGroups hlater hg))
        · intro i hi
          exact ((hlabelled hnone i hi).prepend (hrecording i)).prepend (hspares i hi)

/-- A group that is not left out either lets the run go on, or is the one at which it is aborted. -/
theorem Visit.aborted_cases (h : Visit p g s t s') (hnone : s.abort = none) :
    (∀ i ∈ started t, i = g) ∧
      (abortOf t = none ∧ s'.abort = none ∨
        ∃ reason, abortOf t = some (g, reason) ∧ s'.abort = some reason) := by
  cases h with
  | left habort =>
    rw [hnone] at habort
    cases habort
  | @expired time cursor checks =>
    refine ⟨?_, .inr ⟨timeoutReason, rfl, rfl⟩⟩
    have hnobody : started (⟨.act .now, time⟩ ::
        labelTrail p.filter g timeoutReason cursor checks) = [] :=
      started_labelTrail p.filter g timeoutReason cursor checks
    rw [hnobody]
    exact List.forall_mem_nil _
  | @interrupted time token reason cursor checks =>
    refine ⟨?_, .inr ⟨reason, rfl, rfl⟩⟩
    have hone : started (⟨.act .now, time⟩ :: ⟨.act (.newToken g), token⟩ ::
        ⟨.spawn g (worker p.behaviour p.run g p.filter token), ()⟩ ::
        ⟨.await g p.deadline, .abort reason⟩ :: ⟨.act (.setToken token), ()⟩ ::
        labelTrail p.filter g reason cursor checks) =
          g :: started (labelTrail p.filter g reason cursor checks) := rfl
    rw [hone, started_labelTrail]
    exact List.forall_mem_singleton.mpr rfl
  | completed => exact ⟨List.forall_mem_singleton.mpr rfl, .inl ⟨rfl, hnone⟩⟩

/-- The first abort is the one that is reported. It comes when the groups before it have been run,
and the groups after it are only labelled. -/
theorem abort_of_goes {first count : Nat}
    (h : (runGroups p s (List.range' first count)).Goes t (.ok (s', missing)))
    (hnone : s.abort = none) :
    s'.abort = (abortOf t).map Prod.snd ∧ ∀ k reason, abortOf t = some (k, reason) →
      first ≤ k ∧ (∀ g ∈ started t, g ≤ k) ∧
        (missing = none → ∀ g ∈ List.range' first count, k < g →
          LabelledOnce p.filter g reason t) := by
  induction count generalizing first s t with
  | zero =>
    obtain ⟨rfl, hs⟩ := Prog.goes_done h
    cases hs
    exact ⟨hnone, nofun⟩
  | succ count ih =>
    obtain ⟨t₁, t₂, t₃, s₁, results, missed, rfl, hvisit, hrecord, hend⟩ := goes_runGroups_cons h
    obtain ⟨hquiet, hunmarked, hrecording⟩ := quiet_recordGroup hrecord
    have hlast {g : Nat} (hg : g ∈ List.range' first (count + 1)) (hlt : first < g)
        {reason : String} (hlabelled : g ∈ List.range' (first + 1) count →
          LabelledOnce p.filter g reason t₃) :
        LabelledOnce p.filter g reason (t₁ ++ (t₂ ++ t₃)) := by
      have hrest : g ∈ List.range' (first + 1) count := by
        rw [List.mem_range'_1] at hg ⊢
        omega
      exact ((hlabelled hrest).prepend (hrecording g)).prepend
        (hvisit.sparesGroup (Nat.ne_of_lt hlt))
    obtain ⟨hstarted, ⟨hmark, hgoing⟩ | ⟨reason, hmark, habort⟩⟩ := hvisit.aborted_cases hnone
    -- The run goes on, and the first abort is that of the groups after this one.
    · rw [abortOf_append, hmark, abortOf_append, hunmarked, Option.none_or, Option.none_or]
      rcases hend with ⟨hmissing, rfl, rfl, rfl⟩ | ⟨-, hlater⟩
      · exact ⟨hgoing, nofun⟩
      · obtain ⟨hreported, hdecided⟩ := ih hlater hgoing
        refine ⟨hreported, fun k reason hk => ?_⟩
        obtain ⟨hle, hbefore, hlabelled⟩ := hdecided k reason hk
        refine ⟨by omega, ?_, ?_⟩
        · rw [started_append, started_append, hquiet]
          refine List.forall_mem_append.mpr ⟨fun g hg => ?_, hbefore⟩
          rw [hstarted g hg]
          omega
        · intro hnomissing g hg hlt
          exact hlast hg (by omega) fun hrest => hlabelled hnomissing g hrest hlt
    -- The run is aborted here, and the groups after this one are left out.
    · rw [abortOf_append, hmark, Option.some_or]
      have hdecided : s'.abort = some reason ∧ started t₃ = [] ∧
          (missing = none → ∀ g ∈ List.range' (first + 1) count,
            LabelledOnce p.filter g reason t₃) := by
        rcases hend with ⟨hmissing, rfl, rfl, rfl⟩ | ⟨-, hlater⟩
        · exact ⟨habort, rfl, fun hnomissing => absurd hnomissing hmissing⟩
        · exact left_of_goes hlater List.nodup_range' habort
      obtain ⟨hreported, hnobody, hlabelled⟩ := hdecided
      refine ⟨hreported, ?_⟩
      rintro k r hk
      cases hk
      refine ⟨Nat.le_refl _, ?_, ?_⟩
      · rw [started_append, started_append, hquiet, hnobody, List.append_nil, List.append_nil]
        exact fun g hg => Nat.le_of_eq (hstarted g hg)
      · intro hnomissing g hg hlt
        exact hlast hg hlt (hlabelled hnomissing g)

end Aborts

end Conformance.Run
