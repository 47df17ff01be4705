import Conformance.Proofs.Check.Verdicts
import Conformance.Proofs.Run.Bookkeeping

/-!
What the summaries of a report have to do with its records. A record keeps the state that its check
was in when the turn of its group was over, but the summaries are made at the end of the run, of the
states that the checks are in then. The thread that runs all groups judges no check after recording
it, so that between the two only others change the states: a worker that goes on after an abort of
its group, a callback of another group, or anyone from outside.
-/
namespace Conformance

/-- What a verdict makes of the state of a check, whatever the reason for the state is. -/
def CheckState.take (state : CheckState) (verdict : Verdict) : CheckState :=
  ((⟨state, ""⟩ : Standing).take verdict).state

theorem Standing.state_take (v : Standing) (verdict : Verdict) :
    (v.take verdict).state = v.state.take verdict := by
  unfold CheckState.take take
  cases ofVerdict? verdict with
  | none => rfl
  | some w =>
    simp only
    split <;> rfl

theorem Standing.state_foldl_take (verdicts : List Verdict) (v : Standing) :
    (verdicts.foldl take v).state = verdicts.foldl CheckState.take v.state := by
  induction verdicts generalizing v with
  | nil => rfl
  | cons verdict rest ih => rw [List.foldl_cons, ih, state_take, List.foldl_cons]

theorem CheckState.foldl_take_aborted (verdicts : List Verdict) :
    verdicts.foldl take aborted = aborted := by
  have hkept := congrArg Standing.state
    (List.foldl_fixed' (fun verdict => Standing.take_of_aborted (v := ⟨aborted, ""⟩) rfl verdict)
      verdicts)
  rwa [Standing.state_foldl_take] at hkept

namespace Run

open Conformance.Group Scene

variable {κ : Type} {α : Type}

section Reading

variable {s s' : Scene κ α} {U V W : Story κ} {r : CheckRef}

/-- Whoever asks for the status of a check is told how it stands. -/
theorem exists_scenes_of_status {ev : Event κ} {status : Status}
    (hev : ev.action? = some ⟨.request (.status r), status⟩) (h : Plays s (U ++ ev :: V) s') :
    ∃ s₁ s₂, Plays s U s₁ ∧ s₂.engine = s₁.engine ∧ Plays s₂ V s' ∧
      ∀ v, s₁.engine.standing? r = some v → status.standing = v := by
  obtain ⟨s₁, s₂, hU, hstep, hV⟩ := h.exists_step
  rcases hstep.engine_cases with ⟨a, ha, hanswer, hengine⟩ | ⟨hnone, -⟩
  · cases ha.symm.trans hev
    refine ⟨s₁, s₂, hU, hengine, hV, fun v hv => ?_⟩
    obtain ⟨k, hk, rfl⟩ := Option.map_eq_some_iff.mp hv
    refine congrArg Status.standing (hanswer.trans ?_)
    simp only [Action.apply, Request.apply, hk]
  · cases hnone.symm.trans hev

/-- A check that is read twice stands the second time as the verdicts in between have left it. -/
theorem standing_of_reads {first second : Event κ} {before after : Status}
    (hfirst : first.action? = some ⟨.request (.status r), before⟩)
    (hsecond : second.action? = some ⟨.request (.status r), after⟩)
    (h : Plays s (U ++ first :: (V ++ second :: W)) s')
    (hthere : ∀ s₁, Plays s U s₁ → ∃ c, s₁.engine.definition? r = some c) :
    after.standing = (V.filterMap (Event.verdictOn? r)).foldl Standing.take before.standing := by
  obtain ⟨s₁, s₂, hU, hsame, hrest, hbefore⟩ := exists_scenes_of_status hfirst h
  obtain ⟨s₃, s₄, hV, -, -, hafter⟩ := exists_scenes_of_status hsecond hrest
  obtain ⟨c, hc⟩ := hthere s₁ hU
  obtain ⟨k, hk, -⟩ := Option.map_eq_some_iff.mp hc
  have hv : s₁.engine.standing? r = some k.status.standing := by
    rw [Engine.standing?, hk, Option.map_some]
  rw [hbefore _ hv]
  exact hafter _ (hV.standing? (hsame ▸ hv))

end Reading

/-- A check as a run has recorded it, with the verdicts on it between its recording and its
count. -/
structure Tally (κ : Type) where
  member : Member κ
  record : Record
  late : List Verdict

namespace Tally

/-- The state in which the check is counted. -/
def counted (y : Tally κ) : CheckState := y.late.foldl CheckState.take y.record.state

def row (y : Tally κ) : Member κ × Record := (y.member, y.record)

/-- The status of the check is read once to record it and once more to count it, and the late
verdicts are those that others than the thread that runs all groups have given in between. -/
def IsOf (catalog : Catalog) (T : Story κ) (y : Tally κ) : Prop :=
  ∃ U V W entry before status log after,
    T = U ++ .main ⟨.act (.request (.status y.member.1)), before⟩ ::
      (V ++ .main ⟨.act (.request (.status y.member.1)), after⟩ :: W) ∧
    catalog.lookup y.member.2.id = .ok entry ∧
    Recording.Tells y.record entry y.member.2.id before.state status log ∧
    y.late = V.filterMap (Event.verdictOn? y.member.1) ∧ after.state = y.counted ∧
    ∀ ev ∈ V, ev.main?.isSome = true → ev.verdictOn? y.member.1 = none

theorem counted_of_aborted {y : Tally κ} (h : y.record.state = .aborted) :
    y.counted = .aborted := by
  rw [counted, h, CheckState.foldl_take_aborted]

theorem map_counted {ys : List (Tally κ)} (h : ∀ y ∈ ys, y.late = []) :
    ys.map counted = ys.map fun y => y.record.state :=
  List.map_congr_left fun y hy => by rw [counted, h y hy, List.foldl_nil]

end Tally

section Tallies

theorem verdictOn?_main (r : CheckRef) (a : Prog.Exchange (@Move.Resp κ)) :
    (Event.main a).verdictOn? r = verdictOf? r a := by
  obtain ⟨op, answer⟩ := a
  cases op <;> rfl

variable {catalog : Catalog} {T : Story κ}

/-- Tallies for the checks that were recorded, and the states of those that were only counted. -/
theorem exists_tallies {rows : List (Member κ × Record)} {counted : List (Member κ × Status)}
    (hmembers : rows.map Prod.fst <+: counted.map Prod.fst)
    (h : ∀ row ∈ rows, ∀ c ∈ counted, c.1 = row.1 → ∃ y : Tally κ, y.row = row ∧
      y.counted = c.2.state ∧ y.IsOf catalog T) :
    ∃ (ys : List (Tally κ)) (added : List (Member κ × CheckState)), ys.map Tally.row = rows ∧
      ys.map Tally.member ++ added.map Prod.fst = counted.map Prod.fst ∧
      ys.map Tally.counted ++ added.map Prod.snd = counted.map (·.2.state) ∧
      ∀ y ∈ ys, y.IsOf catalog T := by
  induction rows generalizing counted with
  | nil =>
    refine ⟨[], counted.map fun c => (c.1, c.2.state), rfl, ?_, ?_, List.forall_mem_nil _⟩
    · rw [List.map_nil, List.nil_append, List.map_map]
      rfl
    · rw [List.map_nil, List.nil_append, List.map_map]
      rfl
  | cons row rows ih =>
    cases counted with
    | nil => exact absurd (List.prefix_nil.mp hmembers) (List.cons_ne_nil _ _)
    | cons c counted =>
      obtain ⟨hcheck, hothers⟩ := List.cons_prefix_cons.mp hmembers
      obtain ⟨y, hrow, hcounted, hy⟩ :=
        h row List.mem_cons_self c List.mem_cons_self hcheck.symm
      obtain ⟨ys, added, hrows, hcounts, hstates, hys⟩ := ih hothers fun row' hrow' c' hc' =>
        h row' (List.mem_cons_of_mem _ hrow') c' (List.mem_cons_of_mem _ hc')
      have hmember : y.member = c.1 := (congrArg Prod.fst hrow).trans hcheck
      refine ⟨y :: ys, added, ?_, ?_, ?_, List.forall_mem_cons.mpr ⟨hy, hys⟩⟩
      · rw [List.map_cons, hrow, hrows]
      · rw [List.map_cons, List.cons_append, hcounts, hmember, List.map_cons]
      · rw [List.map_cons, List.cons_append, hstates, hcounted, List.map_cons]

variable {α : Type} {s s' : Scene κ α} {t u : MainTrail κ} {m : Member κ} {record : Record}
  {status : Status}

/-- A check that is recorded for the last time on the one part of a trail and counted on the other
has a tally. -/
theorem exists_tally (h : Plays s T s') (hT : T.mainTrail = t ++ u)
    (hrecord : IsLastRecord catalog t m record) (hu : ∀ g, SparesGroup g u)
    (hcounted : ⟨.act (.request (.status m.1)), status⟩ ∈ u) :
    ∃ y : Tally κ, y.row = (m, record) ∧ y.counted = status.state ∧ y.IsOf catalog T := by
  obtain ⟨checks, entry, before, second, log, earlier, later, hread, hm, hentry, rfl, htells,
    hlater⟩ := hrecord
  obtain ⟨u₁, u₂, rfl⟩ := List.append_of_mem hcounted
  have htrail : T.mainTrail = earlier ++ ⟨.act (.request (.status m.1)), before⟩ ::
      (((recordTrail m entry before second log).tail ++ (later ++ u₁)) ++
        ⟨.act (.request (.status m.1)), status⟩ :: u₂) := by
    rw [hT]
    simp only [recordTrail, List.tail_cons, List.append_assoc, List.cons_append]
  obtain ⟨U, rest, rfl, hU, hrest⟩ := Story.exists_event_of_mainTrail htrail
  obtain ⟨V, W, rfl, hV, -⟩ := Story.exists_event_of_mainTrail hrest
  have hstanding := standing_of_reads rfl rfl h fun s₁ hs₁ => by
    rw [← hU] at hread
    exact ⟨m.2, (mem_membersOf.mp
      (mem_membersOf_of_read hs₁ (Story.mem_of_mainTrail hread) rfl hm)).2⟩
  have hspares : SparesGroup m.1.group V.mainTrail := by
    rw [hV]
    refine SparesGroup.append (fun _ _ => rfl) (hlater.append fun r hr => ?_)
    have hnone := hu m.1.group r hr
    rw [verdictsOn_append, List.append_eq_nil_iff] at hnone
    exact hnone.1
  refine ⟨⟨m, record, V.filterMap (Event.verdictOn? m.1)⟩, rfl, ?_, U, V, W, entry, before, second,
    log, status, rfl, hentry, htells, rfl, ?_, fun ev hev hmain => ?_⟩
  · rw [Tally.counted, htells.state]
    exact ((congrArg Standing.state hstanding).trans (Standing.state_foldl_take _ _)).symm
  · rw [Tally.counted, htells.state]
    exact (congrArg Standing.state hstanding).trans (Standing.state_foldl_take _ _)
  · cases ev with
    | main a =>
      have hnone := List.filterMap_eq_nil_iff.mp (hspares m.1 rfl) a (Story.mem_mainTrail hev)
      rwa [← verdictOn?_main] at hnone
    | worker => cases hmain
    | outside => cases hmain

end Tallies

section Whole

variable {b : Behaviour κ} {filter : Label.Filter} {limit : Option Nat} {catalog : Catalog}
  {results results' : Results} {report : RunReport} {T : Story κ}
  {s' : Scene κ (Results × Answer)} {ws : List (Worker κ Unit)} {e : Engine κ}

/-- Checks are only added to a group, so that the earlier of two readings is a part of the later. -/
theorem isPrefix_of_reads {first second : Event κ} {s s' : Scene κ α} {U V : Story κ}
    (h : Plays s (U ++ V) s') {g : Nat} {earlier later : List (Check κ)}
    (hfirst : first.action? = some ⟨.request (.checks g), earlier⟩) (hearlier : first ∈ U)
    (hsecond : second.action? = some ⟨.request (.checks g), later⟩) (hlater : second ∈ V) :
    membersOf s.engine g <+: members g earlier ∧ members g earlier <+: members g later := by
  obtain ⟨s₁, hU, hV⟩ := h.split
  obtain ⟨hstart, hmiddle⟩ := isPrefix_members_of_read hU hearlier hfirst
  exact ⟨hstart, hmiddle.trans (isPrefix_members_of_read hV hlater hsecond).1⟩

/-- The tallies of one group, whose checks are recorded on the one part of a run and counted on the
other. -/
theorem exists_group_tallies (h : Plays ⟨run b filter limit catalog results, ws, e⟩ T s')
    {t u : MainTrail κ} (hT : T.mainTrail = t ++ u) (hu : ∀ g, SparesGroup g u) {g : Nat}
    {earlier later : List (Check κ)} {rows : List (Member κ × Record)}
    {counted : List (Member κ × Status)}
    (hearlier : ⟨.act (.request (.checks g)), earlier⟩ ∈ t)
    (hrows : rows.map Prod.fst = members g earlier)
    (hrecords : ∀ row ∈ rows, IsLastRecord catalog t row.1 row.2)
    (hlater : ⟨.act (.request (.checks g)), later⟩ ∈ u)
    (hcounted : counted.map Prod.fst = members g later)
    (hstates : ∀ c ∈ counted, ⟨.act (.request (.status c.1.1)), c.2⟩ ∈ u) :
    ∃ (ys : List (Tally κ)) (added : List (Member κ × CheckState)), ys.map Tally.row = rows ∧
      membersOf e g <+: ys.map Tally.member ∧
      ys.map Tally.member ++ added.map Prod.fst = members g later ∧
      ys.map Tally.counted ++ added.map Prod.snd = counted.map (·.2.state) ∧
      ∀ y ∈ ys, y.IsOf catalog T := by
  obtain ⟨hbefore, hgrown⟩ : membersOf e g <+: members g earlier ∧
      members g earlier <+: members g later := by
    obtain ⟨U, V, rfl, rfl, rfl⟩ := Story.exists_split_of_mainTrail hT
    exact isPrefix_of_reads h rfl (Story.mem_of_mainTrail hearlier) rfl
      (Story.mem_of_mainTrail hlater)
  rw [← hrows] at hbefore hgrown
  rw [← hcounted] at hgrown ⊢
  obtain ⟨ys, added, hys, hmembers⟩ := exists_tallies hgrown fun row hrow c hc hcheck => by
    have hseen := hstates c hc
    rw [hcheck] at hseen
    exact exists_tally h hT (hrecords row hrow) hu hseen
  have hall : ys.map Tally.member = rows.map Prod.fst := by
    rw [← hys, List.map_map]
    rfl
  exact ⟨ys, added, hys, hall ▸ hbefore, hmembers⟩

/-- For every engine, whatever ran on it before, for every filter, time limit and behaviour, and in
whatever order everybody takes their steps: a run that gives a report has recorded the checks of
each group, all that were there before the run among them, and its summary counts every one of them
in the state of its record, changed by those verdicts that somebody else has given in between. The
checks that were added to the group in between are counted as well, though they have no record. So
the summary of a group agrees with the records if nobody else judges its checks after they have been
recorded, and adds none; a check that is recorded as aborted is counted as such in any case. -/
theorem summaries_follow_late_verdicts
    (h : Plays ⟨run b filter limit catalog results, ws, e⟩ T s')
    (hdone : s'.main = .done (results', .ok report)) :
    ∃ (tallies : Nat → List (Tally κ)) (added : Nat → List (Member κ × CheckState)),
      report.results = results.insertAll
        (keyed ((List.range e.groups.length).flatMap fun g => (tallies g).map Tally.row)) ∧
      report.groups.map GroupReport.checkIds = (List.range e.groups.length).map (fun g =>
        ((tallies g).map Tally.member ++ (added g).map Prod.fst).map fun m => m.2.id) ∧
      report.groups.map GroupReport.summary = (List.range e.groups.length).map (fun g =>
        .ofStates ((tallies g).map Tally.counted ++ (added g).map Prod.snd)) ∧
      ∀ g < e.groups.length,
        membersOf e g <+: (tallies g).map Tally.member ∧
        (∀ y ∈ tallies g, y.IsOf catalog T ∧ (y.record.state = .aborted → y.counted = .aborted)) ∧
        ((∀ y ∈ tallies g, y.late = []) → added g = [] →
          (report.groups.map GroupReport.summary)[g]? =
            some (.ofStates ((tallies g).map fun y => y.record.state))) := by
  have hgoes := h.main_reaches
  rw [hdone] at hgoes
  obtain ⟨number, began, count, t₁, t₂, s, missing, htrail, hgroups, -, -, -, hquiet, hended⟩ :=
    goes_run hgoes.goes_of_done
  obtain ⟨rfl, p, t₃, rfl, hreport⟩ := hended report rfl
  obtain ⟨recorded, rows, hrecorded, hresults⟩ := exists_rows List.nodup_range hgroups
  obtain ⟨reported, counted, hreported, hids, hsummaries⟩ :=
    exists_reads_of_report List.nodup_range hreport
  obtain rfl : count = e.groups.length :=
    h.groupCount (Story.mem_of_mainTrail (htrail ▸ by simp))
  rw [← List.append_assoc] at htrail
  have htallies := fun g (hg : g ∈ List.range e.groups.length) =>
    exists_group_tallies h htrail hquiet (List.mem_append_right _ (hrecorded g hg).1)
      (hrecorded g hg).2.1 (fun row hrow => ((hrecorded g hg).2.2 row hrow).prepend _)
      (List.mem_append_left _ (hreported g hg).1) (hreported g hg).2.1
      fun c hc => List.mem_append_left _ ((hreported g hg).2.2 c hc)
  choose! tallies added hrows hbefore hmembers hcounted htally using htallies
  have hsummary : report.groups.map GroupReport.summary =
      (List.range e.groups.length).map fun g =>
        .ofStates ((tallies g).map Tally.counted ++ (added g).map Prod.snd) := by
    rw [hsummaries]
    exact List.map_congr_left fun g hg => by rw [hcounted g hg]
  refine ⟨tallies, added, ?_, ?_, hsummary, fun g hg => ?_⟩
  · rw [(goes_report hreport).1, hresults]
    exact congrArg (fun rows => results.insertAll (keyed rows))
      (List.flatMap_congr fun g hg => (hrows g hg).symm)
  · rw [hids]
    exact List.map_congr_left fun g hg => by rw [hmembers g hg, ids_members]
  · have hg' := List.mem_range.mpr hg
    refine ⟨hbefore g hg', fun y hy => ⟨htally g hg' y hy, Tally.counted_of_aborted⟩,
      fun hnone hnobody => ?_⟩
    rw [hsummary, List.getElem?_map, List.getElem?_range hg, Option.map_some, hnobody,
      Tally.map_counted hnone, List.map_nil, List.append_nil]

end Whole

end Run

namespace Scene

variable {κ α : Type}

/-- The step of the thread that runs all groups, or of one of the workers, if they can take one. -/
def turn (s : Scene κ α) : Option Nat → Option (Event κ × Scene κ α)
  | none =>
    match s.main with
    | .ask (.act op) next =>
      some (.main ⟨.act op, (op.apply s.engine).1⟩,
        ⟨next (op.apply s.engine).1, s.workers, (op.apply s.engine).2⟩)
    | .ask .groupCount next =>
      some (.main ⟨.groupCount, s.engine.groups.length⟩,
        ⟨next s.engine.groups.length, s.workers, s.engine⟩)
    | .ask .attach next =>
      some (.main ⟨.attach, s.engine.inbox.run + 1⟩,
        ⟨next (s.engine.inbox.run + 1), s.workers, s.engine.attach⟩)
    | .ask .detach next => some (.main ⟨.detach, ()⟩, ⟨next (), s.workers, s.engine.detach⟩)
    | .ask (.spawn g w) next =>
      some (.main ⟨.spawn g w, ()⟩, ⟨next (), s.workers ++ [w], s.engine⟩)
    | .ask (.await g deadline) next =>
      match awaitGroup g s.engine.inbox.signals with
      | some (wait, signals) =>
        some (.main ⟨.await g deadline, wait⟩, ⟨next wait, s.workers,
          { s.engine with inbox := { s.engine.inbox with signals := signals } }⟩)
      | none => none
    | _ => none
  | some i =>
    match s.workers[i]? with
    | some (Prog.ask op next) =>
      some (.worker i ⟨op, (op.apply s.engine).1⟩,
        ⟨s.main, s.workers.set i (next (op.apply s.engine).1), (op.apply s.engine).2⟩)
    | _ => none

/-- The story in which they take their steps in the given order. -/
def turns (s : Scene κ α) : List (Option Nat) → Option (Story κ × Scene κ α)
  | [] => some ([], s)
  | who :: rest => do
    let (ev, s) ← s.turn who
    let (T, s) ← s.turns rest
    return (ev :: T, s)

theorem step_of_turn {s s' : Scene κ α} {who : Option Nat} {ev : Event κ}
    (h : s.turn who = some (ev, s')) : Step s ev s' := by
  obtain ⟨main, ws, e⟩ := s
  cases who with
  | none =>
    cases main with
    | done => cases h
    | panic => cases h
    | ask op next =>
      cases op with
      | act op =>
        cases h
        exact .act op next ws e
      | groupCount =>
        cases h
        exact .groupCount next ws e
      | attach =>
        cases h
        exact .attach next ws e
      | detach =>
        cases h
        exact .detach next ws e
      | spawn g w =>
        cases h
        exact .spawn g w next ws e
      | await g deadline =>
        simp only [turn] at h
        split at h
        · rename_i wait signals hsignals
          cases h
          exact .await next ws hsignals
        · cases h
  | some i =>
    simp only [turn] at h
    split at h
    · rename_i op next hworker
      cases h
      exact .work main e hworker
    · cases h

theorem plays_of_turns {s s' : Scene κ α} {order : List (Option Nat)} {T : Story κ}
    (h : s.turns order = some (T, s')) : Plays s T s' := by
  induction order generalizing s T with
  | nil =>
    cases h
    exact .start _
  | cons who rest ih =>
    obtain ⟨⟨ev, s₁⟩, hfirst, hrest⟩ := Option.bind_eq_some_iff.mp h
    obtain ⟨⟨U, s₂⟩, hlater, hdone⟩ := Option.bind_eq_some_iff.mp hrest
    cases hdone
    exact (Plays.step (.start _) (step_of_turn hfirst)).trans (ih hlater)

end Scene

namespace Run

open Conformance.Group Scene

section Shop

/-- The body of the first check asks for an abort, and the last hook of its group fails. -/
def parting : Behaviour Unit where
  act _ call :=
    match call with
    | .body ⟨0, 0⟩ => do
      let _ ← Callback.ask (.abort ⟨0, 0⟩ "gone")
      return .ok ()
    | .afterAll .. => .done (.error (.ofText "late"))
    | _ => .done (.ok ())
  excuse _ _ := .done none

/-- The shop, with a hook after all checks. -/
def hookedShop : Orchestrator Unit := shop.setHooks 0 { Hooks.none with afterAll := some () }

def partingRun : Main Unit (Results × Answer) :=
  run parting notOdd none hookedShop.catalog hookedShop.results

/-- The worker goes on to its end when its group has been recorded and the report is still to be
written. -/
def partingOrder : List (Option Nat) :=
  List.replicate 6 none ++ List.replicate 11 (some 0) ++ List.replicate 15 none ++
    List.replicate 7 (some 0) ++ List.replicate 6 none

/-- The states in the records of a report, and its summaries. -/
def stated (p : Main Unit (Results × Answer)) :
    Option (List (String × CheckState) × List Summary) :=
  match p with
  | .done (_, .ok report) =>
    some (report.results.entries.map fun entry => (entry.1, entry.2.state),
      report.groups.map GroupReport.summary)
  | _ => none

theorem exists_stated {p : Main Unit (Results × Answer)} {states : List (String × CheckState)}
    {summaries : List Summary} (h : stated p = some (states, summaries)) :
    ∃ results report, p = .done (results, .ok report) ∧
      report.results.entries.map (fun entry => (entry.1, entry.2.state)) = states ∧
      report.groups.map GroupReport.summary = summaries := by
  unfold stated at h
  split at h
  · rename_i results report
    obtain ⟨hstates, hsummaries⟩ := Prod.mk.inj (Option.some.inj h)
    exact ⟨results, report, rfl, hstates, hsummaries⟩
  · cases h

/-- The second check is recorded as skipped and counted as in error, by a late verdict of the worker
of its own group. -/
theorem summaries_follow_late_verdicts_hookedShop :
    ∃ T s results report, ∃ (tallies : Nat → List (Tally Unit))
      (added : Nat → List (Member Unit × CheckState)),
      Plays ⟨partingRun, [], hookedShop.engine⟩ T s ∧
      s.main = .done (results, .ok report) ∧
      report.results.entries.map (fun entry => (entry.1, entry.2.state)) =
        [("age", .aborted), ("size", .skipped)] ∧
      report.groups.map GroupReport.summary = [⟨0, 0, 0, 1, 1, 2⟩] ∧
      report.groups.map GroupReport.summary =
        [.ofStates ((tallies 0).map Tally.counted ++ (added 0).map Prod.snd)] ∧
      ∀ y ∈ tallies 0, y.IsOf hookedShop.catalog T := by
  have hstated : ((Scene.mk partingRun [] hookedShop.engine).turns partingOrder).bind
      (fun x => stated x.2.main) =
        some ([("age", .aborted), ("size", .skipped)], [⟨0, 0, 0, 1, 1, 2⟩]) := by
    decide +kernel
  obtain ⟨⟨T, s⟩, hturns, hstates⟩ := Option.bind_eq_some_iff.mp hstated
  obtain ⟨results, report, hdone, hrecords, hcounts⟩ := exists_stated hstates
  have hplays := plays_of_turns hturns
  obtain ⟨tallies, added, -, -, hsummaries, hgroups⟩ :=
    summaries_follow_late_verdicts hplays hdone
  refine ⟨T, s, results, report, tallies, added, hplays, hdone, hrecords, hcounts, hsummaries, ?_⟩
  obtain ⟨-, htallies, -⟩ := hgroups 0 Nat.zero_lt_one
  exact fun y hy => (htallies y hy).1

end Shop

end Run

end Conformance
