import Conformance.Proofs.Group.Propagation
import Conformance.Proofs.Run.Clockwork
import Conformance.Proofs.Run.Scheduling
import Conformance.Proofs.Run.Workers

/-!
A group is aborted while its worker goes on. The one who aborts it sets the stop token and reads
the cursor after that; the worker looks at the stop token after it has moved the cursor. Whatever
the order of their steps, the worker has entered no round beyond the cursor that was read, and
enters none later on.
-/
namespace Conformance.Run

open Conformance.Group Scene

variable {κ α : Type}

section Aborting

/-- What the one who aborts a group may ask for. -/
def IsLabelling : Move κ → Prop
  | .act (.setToken _) | .act (.request _) => True
  | _ => False

theorem labelling_ofCallback (p : Callback κ α) : (ofCallback p).Only IsLabelling := by
  refine Prog.only_lift ?_ p
  intro op
  trivial

theorem labelling_closeGroup (p : Plan κ) (st : Progress) (g token : Nat) (reason : String) :
    (closeGroup p st g token (.abort reason)).Only IsLabelling := by
  refine (Prog.only_request trivial).bind fun _ => ?_
  exact (labelling_ofCallback _).bind fun _ => trivial

/-- The stop token is set before the cursor is read. -/
theorem setToken_of_reaches {p : Plan κ} {st : Progress} {g token : Nat} {reason : String}
    {t : List (Prog.Exchange (@Move.Resp κ))} {next : Option Nat → Main κ Progress}
    (h : (closeGroup p st g token (.abort reason)).Reaches t
      (.ask (.act (.request (.cursor g))) next)) : ⟨.act (.setToken token), ()⟩ ∈ t := by
  have hfirst : (Prog.ask (.act (.setToken token)) fun _ => labelGroup p st g reason :
      Main κ Progress).Reaches t (.ask (.act (.request (.cursor g))) next) := h
  cases hfirst with
  | ask => exact List.mem_cons_self

end Aborting

section Race

theorem isSome_group?_readied (g : Nat) (e : Engine κ) (g' : Nat) :
    ((readied g e).group? g').isSome = (e.group? g').isSome := by
  rw [readied, Action.isSome_group?_apply, Action.isSome_group?_apply]

variable {s s' : Scene κ α} {T : Story κ}

/-- A stop token that is set lets nobody pass. -/
theorem clearances_eq_zero (h : Plays s T s') {token : Nat}
    (hset : s.engine.tokenSet token = true) (i : Nat) : clearances token (T.workerTrail i) = 0 := by
  refine List.countP_eq_zero.mpr ?_
  intro a ha hlets
  obtain ⟨U, V, rfl⟩ := List.append_of_mem (Story.mem_of_workerTrail ha)
  obtain ⟨s₁, s₂, hU, hstep, -⟩ := h.exists_step
  rcases hstep.engine_cases with ⟨b, hb, hanswer, -⟩ | ⟨hnone, -⟩
  · cases hb
    obtain ⟨op, answer⟩ := a
    cases op with
    | stopped token' =>
      simp only [lets, Bool.and_eq_true, beq_iff_eq, Bool.not_eq_true'] at hlets
      obtain ⟨rfl, hfalse⟩ := hlets
      have hlook : answer = s₁.engine.tokenSet token' := hanswer
      rw [hU.tokenSet hset, hfalse] at hlook
      cases hlook
    | _ => cases hlets
  · cases hnone

/-- Only one worker moves the cursor, so that its trail tells where the cursor is. -/
theorem foldl_cursor_actions {g i : Nat} (cursor : Option Nat)
    (h : ∀ ev ∈ T, ev.worker? i = none → ∀ a, ev.action? = some a →
      ∀ cursor, a.1.cursorBy g cursor = cursor) :
    T.actions.foldl (fun cursor a => a.1.cursorBy g cursor) cursor =
      cursorAfter g cursor (T.workerTrail i) := by
  induction T generalizing cursor with
  | nil => rfl
  | cons ev T ih =>
    obtain ⟨hev, hT⟩ := List.forall_mem_cons.mp h
    rw [Story.actions, Story.workerTrail]
    cases hworker : ev.worker? i with
    | some a =>
      have haction : ev.action? = some a := by
        cases ev with
        | worker j b =>
          simp only [Event.worker?] at hworker
          split at hworker
          · exact hworker
          · cases hworker
        | main => cases hworker
        | outside => cases hworker
      rw [List.filterMap_cons_some haction, List.filterMap_cons_some hworker, List.foldl_cons]
      exact ih _ hT
    | none =>
      rw [List.filterMap_cons_none hworker]
      cases haction : ev.action? with
      | none =>
        rw [List.filterMap_cons_none haction]
        exact ih _ hT
      | some a =>
        rw [List.filterMap_cons_some haction, List.foldl_cons, hev hworker a haction]
        exact ih _ hT

/-- The checks of a group that somebody is told of are those of a moment of the story. -/
theorem exists_moment_of_read {ev : Event κ} {g : Nat} {checks : List (Check κ)}
    (h : Plays s T s') (hread : ev ∈ T) (hev : ev.action? = some ⟨.request (.checks g), checks⟩) :
    ∃ e : Engine κ, s.engine.Grows e ∧ e.Grows s'.engine ∧
      checks = (e.checksOf g).map Registered.check := by
  obtain ⟨U, V, rfl⟩ := List.append_of_mem hread
  obtain ⟨s₁, s₂, hU, hstep, hV⟩ := h.exists_step
  rcases hstep.engine_cases with ⟨a, ha, hanswer, hengine⟩ | ⟨hnone, -⟩
  · cases ha.symm.trans hev
    have hsame : s₂.engine = s₁.engine := hengine
    exact ⟨s₁.engine, hU.grows, hsame ▸ hV.grows, hanswer⟩
  · cases hnone.symm.trans hev

/-- What somebody has been told of the checks of a group is true of them later on. -/
theorem isPrefix_checks_of_mem {ev : Event κ} {g : Nat} {checks : List (Check κ)}
    (h : Plays s T s') (hread : ev ∈ T) (hev : ev.action? = some ⟨.request (.checks g), checks⟩) :
    checks <+: (s'.engine.checksOf g).map Registered.check := by
  obtain ⟨e, -, hgrows, rfl⟩ := exists_moment_of_read h hread hev
  exact isPrefix_checks hgrows g

/-- The rank of a selected check that somebody is told of is its rank later on. -/
theorem selected_of_read {ev : Event κ} {g : Nat} {checks : List (Check κ)} (h : Plays s T s')
    (hread : ev ∈ T) (hev : ev.action? = some ⟨.request (.checks g), checks⟩)
    {filter : Label.Filter} {i : Nat} {m : Member κ}
    (hm : (selected filter (members g checks))[i]? = some m) :
    (selected filter (membersOf s'.engine g))[i]? = some m :=
  selected_of_isPrefix (isPrefix_checks_of_mem h hread hev) hm

/-- The scene in which the abort of a group begins, whatever its worker is going to do by then. -/
def aborting (p : Plan κ) (st : Progress) (g : Nat) (reason : String)
    (others : List (Worker κ Unit)) (e : Engine κ) : Scene κ Progress :=
  ⟨closeGroup p st g e.tokens.length (.abort reason),
    others ++ [worker p.behaviour p.run g p.filter e.tokens.length], readied g e⟩

end Race

section Safety

variable {p : Plan κ} {st : Progress} {g : Nat} {reason : String} {others : List (Worker κ Unit)}
  {e : Engine κ} {s s' : Scene κ Progress} {T : Story κ}

theorem isLabelling_of_mem (h : (aborting p st g reason others e).Plays T s)
    {a : Prog.Exchange (@Move.Resp κ)} (ha : Event.main a ∈ T) : IsLabelling a.1 :=
  (labelling_closeGroup p st g _ reason).reaches h.main_reaches a (Story.mem_mainTrail ha)

/-- The one who aborts spawns no worker. -/
theorem spawned_aborting (h : (aborting p st g reason others e).Plays T s) : T.spawned = [] := by
  refine List.filterMap_eq_nil_iff.mpr ?_
  intro ev hev
  cases ev with
  | main a =>
    have hlabelling := isLabelling_of_mem h hev
    obtain ⟨op, answer⟩ := a
    cases op with
    | spawn => exact absurd hlabelling id
    | _ => rfl
  | worker => rfl
  | outside => rfl

theorem progressed_of_aborting (h : (aborting p st g reason others e).Plays T s) :
    Progressed p.behaviour p.run g p.filter e.tokens.length (T.workerTrail others.length) := by
  refine progressed_of_plays h ?_
  rw [spawned_aborting h, List.append_nil, aborting, List.getElem?_concat_length]

theorem cursorOf_aborting (hothers : ∀ w ∈ others, w.Only (Action.SparesCursor g))
    (h : (aborting p st g reason others e).Plays T s) (hg : (e.group? g).isSome) :
    s.engine.cursorOf g =
      cursorAfter g ((readied g e).cursorOf g) (T.workerTrail others.length) := by
  rw [h.cursorOf ((isSome_group?_readied g e g).trans hg)]
  refine foldl_cursor_actions _ ?_
  intro ev hev hnone a ha
  cases ev with
  | main b =>
    have hlabelling := isLabelling_of_mem h hev
    obtain ⟨op, answer⟩ := b
    cases op with
    | act op =>
      cases ha
      cases op with
      | request => exact fun _ => rfl
      | setToken => exact fun _ => rfl
      | _ => exact absurd hlabelling id
    | _ => cases ha
  | worker j b =>
    cases ha
    obtain ⟨w, q, hw, hreaches⟩ := h.reaches_of_mem hev
    have hj : j ≠ others.length := by
      rintro rfl
      simp [Event.worker?] at hnone
    rw [spawned_aborting h, List.append_nil, aborting] at hw
    rcases Nat.lt_or_ge j others.length with hlt | hge
    · rw [List.getElem?_append_left hlt] at hw
      exact (hothers w (List.mem_of_getElem? hw)).reaches hreaches a (Story.mem_workerTrail hev)
    · have hout : others.length + 1 ≤ j := by omega
      rw [List.getElem?_eq_none (by simpa using hout)] at hw
      cases hw
  | outside b =>
    cases ha
    exact fun _ => rfl

/-- From the moment at which the cursor is read, the stop token is set. -/
theorem tokenSet_of_read {U : Story κ} {s₁ s₂ : Scene κ Progress} {cursor : Option Nat}
    (h : (aborting p st g reason others e).Plays U s₁)
    (hstep : Step s₁ (.main ⟨.act (.request (.cursor g)), cursor⟩) s₂) :
    s₁.engine.tokenSet e.tokens.length = true := by
  have hset : ⟨.act (.setToken e.tokens.length), ()⟩ ∈ U.mainTrail := by
    rcases hstep.main_cases with ⟨op, next, answer, hev, hmain, -⟩ | ⟨hnone, -⟩
    · cases hev
      have hreaches := h.main_reaches
      rw [hmain] at hreaches
      exact setToken_of_reaches hreaches
    · cases hnone
  obtain ⟨V, W, rfl⟩ := List.append_of_mem (Story.mem_of_mainTrail hset)
  obtain ⟨u₁, u₂, hV, hstop, hW⟩ := h.exists_step
  refine hW.tokenSet ?_
  have hlength : e.tokens.length < u₁.engine.tokens.length := by
    refine Nat.lt_of_lt_of_le ?_ hV.length_tokens
    simp [aborting, readied, Action.apply, Engine.tick]
  rcases hstop.engine_cases with ⟨a, ha, -, hengine⟩ | ⟨hnone, -⟩
  · cases ha
    rw [hengine]
    exact (u₁.engine.tokenSet_setToken _ _).trans (if_pos ⟨rfl, hlength⟩)
  · cases hnone

/-- The stop token is found unset at most once more than the cursor counts that is read, before and
after the cursor is read. -/
theorem clearances_le_of_read (hothers : ∀ w ∈ others, w.Only (Action.SparesCursor g))
    (h : (aborting p st g reason others e).Plays T s) (hg : (e.group? g).isSome)
    {cursor : Option Nat} (hread : Event.main ⟨.act (.request (.cursor g)), cursor⟩ ∈ T) :
    clearances e.tokens.length (T.workerTrail others.length) ≤ cursor.elim 0 (· + 1) := by
  obtain ⟨U, V, rfl⟩ := List.append_of_mem hread
  obtain ⟨s₁, hU, hV⟩ := h.split
  obtain ⟨s₁', s₂, hbefore, hstep, -⟩ := hV.exists_step (T := [])
  obtain rfl := plays_nil hbefore
  have hcursor : cursor = s₁'.engine.cursorOf g := by
    rcases hstep.engine_cases with ⟨a, ha, hanswer, -⟩ | ⟨hnone, -⟩
    · cases ha
      exact hanswer
    · cases hnone
  rw [Story.workerTrail_append, clearances_append,
    clearances_eq_zero hV (tokenSet_of_read hU hstep) others.length, Nat.add_zero, hcursor,
    cursorOf_aborting hothers hU hg]
  exact (progressed_of_aborting hU).clearances_le _

/-- For every group, filter and behaviour, and in whatever order the worker of the group, the one
who aborts it and all others take their steps: a callback for a check that is called before or after
the cursor is read is one for a selected check, and the cursor that is read is at the place of this
check or beyond. So if the cursor is unset, no callback for a check is ever called. -/
theorem stop_safety (hothers : ∀ w ∈ others, w.Only (Action.SparesCursor g))
    (h : (aborting p st g reason others e).Plays T s) {cursor : Option Nat}
    (hread : Event.main ⟨.act (.request (.cursor g)), cursor⟩ ∈ T) {call : Call}
    (hcall : Event.worker others.length ⟨.enter call, ()⟩ ∈ T) {r : CheckRef}
    (hr : call.check? = some r) :
    ∃ i place m, cursor = some place ∧ i ≤ place ∧
      (selected p.filter (membersOf s.engine g))[i]? = some m ∧ m.1 = r := by
  obtain ⟨checks, i, m, htold, hm, hsame, hlt⟩ :=
    (progressed_of_aborting h).check (Story.mem_workerTrail hcall) hr
  have hselected : (selected p.filter (membersOf s.engine g))[i]? = some m :=
    selected_of_read h (Story.mem_of_workerTrail htold) rfl hm
  have hg : (e.group? g).isSome := by
    rw [← isSome_group?_readied g e g]
    exact (h.isSome_group? g).symm.trans
      (isSome_group?_of_mem (List.mem_filter.mp (List.mem_of_getElem? hselected)).1)
  have hplace := Nat.lt_of_lt_of_le hlt (clearances_le_of_read hothers h hg hread)
  cases cursor with
  | none => exact absurd hplace (Nat.not_lt_zero i)
  | some place => exact ⟨i, place, m, rfl, Nat.le_of_lt_succ hplace, hselected, hsame⟩

end Safety

section Late

/-- The workers of other groups leave the cursor of a group alone. -/
theorem sparesCursor_worker (b : Behaviour κ) (run : Nat) {g g' : Nat} (h : g' ≠ g)
    (filter : Label.Filter) (token : Nat) :
    (worker b run g' filter token).Only (Action.SparesCursor g) := by
  refine (own_worker b run g' filter token).mono ?_
  rintro op (hown | ⟨outcome, rfl⟩)
  · cases op with
    | setCursor other cursor =>
      have hother : other = g' := hown
      exact fun _ => if_neg (hother ▸ h)
    | _ => exact fun _ => rfl
  · exact fun _ => rfl

/-- Callbacks that do nothing. -/
def calm : Behaviour Unit := ⟨fun _ _ => .done (.ok ()), fun _ _ => .done none⟩

/-- The first group has been aborted. The second one has two checks. -/
def midway : Engine Unit :=
  { (Engine.start 0 : Engine Unit) with
    groups := [.fresh "f", { Group.fresh "g" with checks := [
      .fresh (plain "a" "common"), .fresh (plain "b" "common")] }]
    tokens := [true] }

def lateAbort : Scene Unit Progress :=
  aborting ⟨calm, 0, common, none, .empty⟩ ⟨none, [], 0, .empty⟩ 1 "late"
    [worker calm 0 0 common 0] midway

def atStamp : Action Unit → Engine Unit → Bool
  | .finish _, _ => true
  | _, _ => false

/-- The workers, the second of them in the body of its first check, and the engine by then. -/
def inBody : List (Worker Unit Unit) × Engine Unit :=
  let left := (worker calm 0 1 common 1).execUntil atStamp Action.apply lateAbort.engine
  ([worker calm 0 0 common 0, left.1], left.2)

/-- The body of the first check is called before the abort begins, and the worker goes on after the
abort has come to its end. -/
theorem stop_safety_late :
    ∃ T s, (∀ w ∈ [worker calm 0 0 common 0], w.Only (Action.SparesCursor 1)) ∧
      lateAbort.Plays T s ∧ Event.main ⟨.act (.request (.cursor 1)), some 0⟩ ∈ T ∧
      Event.worker 1 ⟨.enter (.body ⟨1, 0⟩), ()⟩ ∈ T ∧
      ∃ i place m, some 0 = some place ∧ i ≤ place ∧
        (selected common (membersOf s.engine 1))[i]? = some m ∧ m.1 = ⟨1, 0⟩ := by
  have hothers : ∀ w ∈ [worker calm 0 0 common 0], w.Only (Action.SparesCursor 1) :=
    List.forall_mem_singleton.mpr (sparesCursor_worker calm 0 (by decide) common 0)
  have hvalue : (Schedule.drive lateAbort.main inBody.1 inBody.2).1 =
      .ok ⟨some "late", [], 0, .empty⟩ := rfl
  have hplays := (plays_work atStamp lateAbort.main 1 lateAbort.workers lateAbort.engine rfl).trans
    ((Schedule.plays_story lateAbort.main inBody.1 inBody.2 hvalue).trans
      (plays_work (fun _ _ => false) _ 1 inBody.1 _ rfl))
  refine ⟨_, _, hothers, hplays, ?_⟩
  have hread : Event.main ⟨.act (.request (.cursor 1)), some 0⟩ ∈
      Schedule.story lateAbort.main inBody.1 inBody.2 :=
    List.mem_of_getElem? (i := 1) rfl
  have hcall : Event.worker 1 ⟨.enter (.body ⟨1, 0⟩), ()⟩ ∈ ((worker calm 0 1 common 1).trailUntil
      Action.apply atStamp lateAbort.engine).map (Event.worker 1) :=
    List.mem_of_getElem? (i := 9) rfl
  exact ⟨List.mem_append_right _ (List.mem_append_left _ hread), List.mem_append_left _ hcall,
    stop_safety hothers hplays (List.mem_append_right _ (List.mem_append_left _ hread))
      (List.mem_append_left _ hcall) rfl⟩

end Late

end Conformance.Run
