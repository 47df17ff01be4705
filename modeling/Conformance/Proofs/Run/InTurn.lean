import Conformance.Proofs.Report.Recording
import Conformance.Proofs.Run.Calm
import Conformance.Proofs.Run.Rows
import Conformance.Proofs.Run.Workers
import Mathlib.Algebra.GroupWithZero.Nat

/-!
A run to which nobody puts an end, of groups that keep to themselves. It takes up the groups one
after the other, and each of them comes to what it comes to when it is run alone on the engine on
which the run was started, whatever has become of the groups before it.
-/
namespace Conformance.Run

open Schedule Scene Engine

variable {κ α : Type} {b : Behaviour κ} {filter : Label.Filter} {deadline : Option Nat}

section Group

/-- The outcome of a group and the engine that it leaves, when it is run alone. -/
def ran (b : Behaviour κ) (run g : Nat) (filter : Label.Filter) (token : Nat) (e : Engine κ) :
    Outcome × Engine κ :=
  let result := (Group.run b g filter token (some ⟨run, g⟩)).exec Action.apply e
  (outcomeOf ((Action.groupName g).apply e).1 result.1, result.2)

/-- No operation of the group, when it is run alone, puts an end to the run. -/
def RunsCalmly (b : Behaviour κ) (run g : Nat) (filter : Label.Filter) (token : Nat)
    (e : Engine κ) : Prop :=
  ∀ a ∈ (Group.run b g filter token (some ⟨run, g⟩)).trail Action.apply e, a.1.isCalm = true

/-- What the worker of a group does before it tells of the completion. -/
def labour (b : Behaviour κ) (run g : Nat) (filter : Label.Filter) (token : Nat) :
    Worker κ Outcome :=
  (Worker.act (.groupName g)).bind fun name =>
    (Group.run b g filter token (some ⟨run, g⟩)).guarded.bind fun result =>
      .done (outcomeOf name result)

theorem worker_eq (b : Behaviour κ) (run g : Nat) (filter : Label.Filter) (token : Nat) :
    worker b run g filter token = (labour b run g filter token).bind fun outcome =>
      Worker.act (.send run (.done g outcome)) := by
  rw [labour, Prog.bind_assoc]
  refine congrArg _ (funext fun name => ?_)
  rw [Prog.bind_assoc]
  rfl

theorem exec_labour (b : Behaviour κ) (run g : Nat) (filter : Label.Filter) (token : Nat)
    (e : Engine κ) : (labour b run g filter token).exec Action.apply e =
      (.ok (ran b run g filter token e).1, (ran b run g filter token e).2) := by
  have hnamed : (labour b run g filter token).exec Action.apply e =
      ((Group.run b g filter token (some ⟨run, g⟩)).guarded.bind fun result =>
        .done (outcomeOf ((Action.groupName g).apply e).1 result)).exec Action.apply e := rfl
  rw [hnamed, Prog.exec_bind, Prog.exec_guarded]
  rfl

theorem silent_labour (b : Behaviour κ) (run g : Nat) (filter : Label.Filter) (token : Nat) :
    (labour b run g filter token).Only Action.IsSilent := by
  refine (Prog.only_request trivial).bind fun name => ?_
  refine Prog.Only.bind (Prog.Only.guarded ?_) fun result => trivial
  refine (Group.own_run b g filter token _).mono fun op h => ?_
  cases op with
  | send => exact absurd h id
  | _ => trivial

theorem neverPanics_labour (b : Behaviour κ) (run g : Nat) (filter : Label.Filter) (token : Nat) :
    (labour b run g filter token).NeverPanics := by
  refine (Prog.neverPanics_request _).bind fun name => ?_
  exact (Prog.neverPanics_guarded _).bind fun result => trivial

theorem runsCalmly_of_labour {run g token : Nat} {e : Engine κ}
    (h : ∀ a ∈ (labour b run g filter token).trail Action.apply e, a.1.isCalm = true) :
    RunsCalmly b run g filter token e := by
  have hbegins := Prog.isPrefix_trail_bind Action.apply
    (Group.run b g filter token (some ⟨run, g⟩)).guarded
    (fun result => .done (outcomeOf ((Action.groupName g).apply e).1 result)) e
  rw [Prog.trail_guarded] at hbegins
  exact fun a ha => h a (List.mem_cons_of_mem _ (hbegins.subset ha))

/-- The run goes on from its wait with the outcome of the worker that it has spawned. -/
theorem calmly_spawn {g run : Nat} {f : Wait → Main κ α} {r : Worker κ Outcome}
    (hr : r.Only Action.IsSilent) (hsafe : r.NeverPanics) {e : Engine κ}
    (hinbox : e.inbox = ⟨run, true, []⟩) {Q : α → Engine κ → Prop}
    (h : ∀ outcome e', r.exec Action.apply e = (.ok outcome, e') →
      (∀ a ∈ r.trail Action.apply e, a.1.isCalm = true) →
      Calmly deadline (f (.done outcome)) e' Q) :
    Calmly deadline ((move (.spawn g (r.bind fun outcome =>
      Worker.act (.send run (.done g outcome))))).bind fun _ => (move (.await g deadline)).bind f)
      e Q := by
  intro β k ws T s hws hplays hcalm
  rcases plays_cases hplays with ⟨rfl, rfl⟩ | ⟨ev, U, s₁, rfl, hstep, hU⟩
  · exact .inl ⟨⟨_, _, rfl⟩, _, _, rfl, .spawn g _ _ ws e⟩
  · obtain ⟨hev, hrest⟩ := List.forall_mem_cons.mp hcalm
    obtain ⟨a, rfl⟩ := exists_main_of_step hws hev hstep
    cases hstep
    rcases calm_wait hws hr hsafe hinbox hU hrest with
      hgoing | ⟨outcome, e', vs, V, hexec, htrail, hvs, hV, hlater⟩
    · exact .inl hgoing
    · exact h outcome e' hexec htrail β k vs V s hvs hlater hV

/-- Nobody puts an end to the run while it waits for a group that it has come to in time. -/
theorem calmly_runGroup {p : Plan κ} {s : Progress} {e : Engine κ} (habort : s.abort = none)
    (hinbox : e.inbox = ⟨p.run, true, []⟩) (g : Nat) :
    Calmly p.deadline (runGroup p s g) e fun s' e' =>
      RunsCalmly p.behaviour p.run g p.filter e.tokens.length (readied g e) ∧
      ∃ outcome, (outcome, e') = ran p.behaviour p.run g p.filter e.tokens.length (readied g e) ∧
        s' = { s with
          errors := s.errors ++ outcome.errors
          failed := s.failed + outcome.failed } := by
  obtain ⟨abort, errors, failed, results⟩ := s
  obtain rfl : abort = none := habort
  rw [runGroup_eq]
  refine calmly_act_bind fun hnow => ?_
  have hearly : isPast p.deadline ((Action.now : Action κ).apply e).1 = false := by
    simpa [Event.isCalm] using hnow
  rw [hearly]
  refine calmly_act_bind fun _ => ?_
  rw [worker_eq]
  have hready : (readied g e).inbox = ⟨p.run, true, []⟩ := hinbox
  refine calmly_spawn (silent_labour _ _ _ _ _) (neverPanics_labour _ _ _ _ _) hready ?_
  intro outcome e' hexec htrail
  rw [exec_labour] at hexec
  obtain ⟨hvalue, hengine⟩ := Prod.mk.inj hexec
  refine calmly_done ⟨runsCalmly_of_labour htrail, outcome, ?_, rfl⟩
  exact Prod.ext (Except.ok.inj hvalue).symm hengine.symm

/-- A run of the group comes to the same on engines that it cannot tell apart, and leaves all other
groups alone. -/
theorem Homely.ran (hb : Homely b) {run g token : Nat} {e e' : Engine κ}
    (hcalm : RunsCalmly b run g filter token e) (h : Alike g token e e') :
    (ran b run g filter token e).1 = (ran b run g filter token e').1 ∧
      Alike g token (ran b run g filter token e).2 (ran b run g filter token e').2 ∧
      Leaves g e (ran b run g filter token e).2 := by
  have hhome : (Action.groupName g : Action κ).IsHome g token := rfl
  have hname := (h.apply hhome).1
  have honly := hb.only_run g filter token (some ⟨run, g⟩)
  unfold RunsCalmly at hcalm
  unfold Run.ran
  generalize Group.run b g filter token (some ⟨run, g⟩) = p at hcalm honly ⊢
  have hhome : ∀ a ∈ p.trail Action.apply e, a.1.IsHome g token := by
    intro a ha
    refine (honly.goes (Prog.goes_trail _ p e) a ha).resolve_right ?_
    rw [hcalm a ha]
    exact nofun
  obtain ⟨hresult, hafter⟩ := h.exec hhome
  exact ⟨congrArg₂ outcomeOf hname hresult, hafter, Leaves.exec hhome⟩

end Group

section Turns

variable {e₀ e e' : Engine κ} {solos : List (Outcome × Engine κ)} {s : Progress}

/-- What a group comes to when it is run alone on the engine at some time, with a stop token that
nobody sets. -/
def alone (b : Behaviour κ) (filter : Label.Filter) (e : Engine κ) (g time : Nat) :
    Outcome × Engine κ :=
  ran b (e.inbox.run + 1) g filter (e.tokens.length + g) { e with clock := time }

/-- As many groups as there are solos have been run so far, each of them as it is run alone. The
groups after them are as they were. -/
structure InTurn (b : Behaviour κ) (filter : Label.Filter) (e₀ : Engine κ)
    (solos : List (Outcome × Engine κ)) (s : Progress) (e : Engine κ) : Prop where
  solo {g : Nat} {x : Outcome × Engine κ} (h : solos[g]? = some x) :
    ∃ time, x = alone b filter e₀ g time
  result? {r : CheckRef} {x : Outcome × Engine κ} (h : solos[r.group]? = some x) :
    e.result? r = x.2.result? r
  view {g : Nat} (h : solos.length ≤ g) : e.view g = e₀.view g
  abort : s.abort = none
  errors : s.errors = solos.flatMap fun x => x.1.errors
  failed : s.failed = (solos.map fun x => x.1.failed).sum
  names : e.names = e₀.names
  inbox : e.inbox = ⟨e₀.inbox.run + 1, true, []⟩
  tokens : e.tokens.length = e₀.tokens.length + solos.length

theorem view_readied (g : Nat) (e : Engine κ) (g' : Nat) : (readied g e).view g' = e.view g' := by
  have hgroup : (readied g e).group? g' = (e.modifyGroup g fun group =>
      { group with token := some e.tokens.length }).group? g' := rfl
  rw [Engine.view, hgroup, group?_modifyGroup, Engine.view]
  split
  · rw [Option.map_map]
    rfl
  · rfl

theorem names_readied (g : Nat) (e : Engine κ) : (readied g e).names = e.names :=
  names_modifyGroup e g (f := fun group => { group with token := some e.tokens.length })
    fun _ => rfl

theorem result?_readied (g : Nat) (e : Engine κ) (r : CheckRef) :
    (readied g e).result? r = e.result? r := by
  rw [Engine.result?, Engine.result?, check?_eq_view, check?_eq_view, view_readied]

/-- A group of which only its checks are asked is left as it is when it is recorded. -/
theorem InTurn.leaves (h : InTurn b filter e₀ solos s e) {g : Nat} (hg : g < solos.length)
    (hleaves : Leaves g e e') (hsame : ∀ r, e'.result? r = e.result? r) (results : Results) :
    InTurn b filter e₀ solos { s with results := results } e' where
  solo := h.solo
  result? hr := (hsame _).trans (h.result? hr)
  view hlater := (hleaves.view (by omega)).trans (h.view hlater)
  abort := h.abort
  errors := h.errors
  failed := h.failed
  names := hleaves.names.trans h.names
  inbox := hleaves.inbox.trans h.inbox
  tokens := by rw [hleaves.tokens, h.tokens]

theorem alike_readied (h : InTurn b filter e₀ solos s e) :
    Alike solos.length e.tokens.length (readied solos.length e)
      { e₀ with clock := (readied solos.length e).clock } where
  view := (view_readied _ e _).trans (h.view (Nat.le_refl _))
  names := (names_readied _ e).trans h.names
  clock := rfl
  tokenSet := by
    rw [tokenSet_readied, h.tokens, Engine.tokenSet, List.getD_eq_getElem?_getD,
      List.getElem?_eq_none (Nat.le_add_right _ _)]
    rfl

/-- The next group comes to what it comes to alone. -/
theorem InTurn.group (hb : Homely b) (h : InTurn b filter e₀ solos s e)
    (hcalm : RunsCalmly b (e₀.inbox.run + 1) solos.length filter e.tokens.length
      (readied solos.length e)) {outcome : Outcome}
    (hran : (outcome, e') = ran b (e₀.inbox.run + 1) solos.length filter e.tokens.length
      (readied solos.length e)) :
    ∃ x, InTurn b filter e₀ (solos ++ [x]) { s with
      errors := s.errors ++ outcome.errors
      failed := s.failed + outcome.failed } e' := by
  have hsolo := Homely.ran hb hcalm (alike_readied h)
  rw [← hran, h.tokens] at hsolo
  obtain ⟨hsame, hlike, hleaves⟩ := hsolo
  refine ⟨alone b filter e₀ solos.length (readied solos.length e).clock, ?_⟩
  have hx : alone b filter e₀ solos.length (readied solos.length e).clock =
      ran b (e₀.inbox.run + 1) solos.length filter (e₀.tokens.length + solos.length)
        { e₀ with clock := (readied solos.length e).clock } := rfl
  rw [← hx] at hsame hlike
  generalize hy : alone b filter e₀ solos.length (readied solos.length e).clock = x at hsame hlike
  obtain rfl : outcome = x.1 := hsame
  have hlast {g : Nat} {y : Outcome × Engine κ} (hg : (solos ++ [x])[g]? = some y) :
      solos[g]? = some y ∨ g = solos.length ∧ y = x := by
    rcases Nat.lt_trichotomy g solos.length with hlt | rfl | hgt
    · rw [List.getElem?_append_left hlt] at hg
      exact .inl hg
    · rw [List.getElem?_concat_length] at hg
      exact .inr ⟨rfl, (Option.some.inj hg).symm⟩
    · have hout : (solos ++ [x]).length ≤ g := by
        rw [List.length_append]
        exact hgt
      rw [List.getElem?_eq_none hout] at hg
      cases hg
  constructor
  case solo =>
    intro g y hg
    rcases hlast hg with hbefore | ⟨rfl, rfl⟩
    · exact h.solo hbefore
    · exact ⟨_, hy.symm⟩
  case result? =>
    intro r y hg
    rcases hlast hg with hbefore | ⟨hr, rfl⟩
    · have hlt := (List.getElem?_eq_some_iff.mp hbefore).1
      rw [hleaves.result? (Nat.ne_of_lt hlt), result?_readied]
      exact h.result? hbefore
    · exact hlike.result? hr
  case view =>
    intro g hg
    rw [List.length_append, List.length_singleton] at hg
    rw [hleaves.view (by omega), view_readied]
    exact h.view (by omega)
  case abort => exact h.abort
  case errors => simp [h.errors]
  case failed => simp [h.failed]
  case names => exact (hleaves.names.trans (names_readied _ e)).trans h.names
  case inbox => exact hleaves.inbox.trans h.inbox
  case tokens =>
    have htokens : (readied solos.length e).tokens = e.tokens ++ [false] := rfl
    rw [hleaves.tokens, htokens, List.length_append, h.tokens, List.length_append]
    rfl

theorem leaves_recordGroup {catalog : Catalog} {results : Results} {g : Nat}
    {y : Results × Option Catalog.MissingEntry}
    (h : (Recording.recordGroup catalog results g).exec Request.apply e = (.ok y, e')) :
    Leaves g e e' := by
  have habout (op : Request κ) (hop : Recording.Asks g op) : op.IsAbout g := by
    cases op with
    | checks | status | log | write => exact hop
    | _ => exact absurd hop id
  have hleaves := (Recording.asks_recordGroup catalog results g).effect (leaves_isEffect g)
    (fun op u hop => Leaves.request (habout op hop) u) e
  rwa [h] at hleaves

/-- All groups are run in turn, up to the first one of which a check cannot be recorded. -/
theorem calmly_runGroups {p : Plan κ} (hb : Homely p.behaviour) (hrun : p.run = e₀.inbox.run + 1)
    (count : Nat) (h : InTurn p.behaviour p.filter e₀ solos s e) :
    Calmly p.deadline (runGroups p s (List.range' solos.length count)) e fun y e' =>
      ∃ solos', InTurn p.behaviour p.filter e₀ solos' y.1 e' ∧
        solos'.length ≤ solos.length + count ∧
        (y.2 = none → solos'.length = solos.length + count) ∧
        (∀ missing, y.2 = some missing →
          ∃ r c, e'.definition? r = some c ∧ p.catalog.lookup c.id = .error missing) := by
  induction count generalizing solos s e with
  | zero => exact calmly_done ⟨solos, h, Nat.le_refl _, fun _ => rfl, nofun⟩
  | succ count ih =>
    have hinbox : e.inbox = ⟨p.run, true, []⟩ := hrun ▸ h.inbox
    refine (calmly_runGroup h.abort hinbox solos.length).bind ?_
    rintro s₁ e₁ ⟨hcalm, outcome, hran, rfl⟩
    rw [hrun] at hcalm hran
    obtain ⟨x, hturn⟩ := h.group hb hcalm hran
    refine (calmly_ofCallback (Recording.neverPanics_recordGroup _ _ _)).bind ?_
    rintro ⟨results, missing⟩ e₂ hrecord
    have hsame (r : CheckRef) : e₂.result? r = e₁.result? r := by
      have hkept := Recording.result?_recordGroup p.catalog s.results solos.length e₁ r
      rwa [hrecord] at hkept
    have hlength : (solos ++ [x]).length = solos.length + 1 := List.length_append
    have hrecorded := hturn.leaves (by omega) (leaves_recordGroup hrecord) hsame results
    cases missing with
    | some missing =>
      obtain ⟨m, hm, hnone⟩ := Recording.exists_of_missing hrecord
      have hthere := grows_callback hrecord m.1 m.2 (Group.mem_membersOf.mp hm).2
      refine calmly_done ⟨_, hrecorded, by omega, nofun, ?_⟩
      intro first hfirst
      cases hfirst
      exact ⟨m.1, m.2, hthere, hnone⟩
    | none =>
      have hrest := ih hrecorded
      rw [hlength, Nat.add_right_comm] at hrest
      exact hrest

end Turns

section Whole

/-- Questions change nothing but the clock. -/
theorem drive_questions {p : Main κ α} (hp : p.Only IsQuestion) (hsafe : p.NeverPanics)
    (ws : List (Worker κ Unit)) (e : Engine κ) :
    ∃ value clock, drive p ws e = (.ok value, ws, { e with clock := clock }) := by
  induction p generalizing e with
  | done value => exact ⟨value, e.clock, rfl⟩
  | panic q => exact absurd hsafe id
  | ask op next ih =>
    have hlater (answer : op.Resp) (time : Nat) :=
      ih answer (hp.2 answer) (hsafe answer) { e with clock := time }
    cases op with
    | act op =>
      cases op with
      | now => exact hlater e.clock (e.clock + Engine.moment)
      | groupName g => exact hlater _ e.clock
      | request op =>
        cases op with
        | checks g => exact hlater _ e.clock
        | status r => exact hlater _ e.clock
        | _ => exact absurd hp.1 id
      | _ => exact absurd hp.1 id
    | _ => exact absurd hp.1 id

theorem report_of_drive {p : Plan κ} {s : Progress} {began : Nat} {groups : List Nat}
    {r : RunReport} {ws ws' : List (Worker κ Unit)} {e e' : Engine κ}
    (h : drive (report p s began groups) ws e = (.ok r, ws', e')) :
    r.abortReason = s.abort ∧ r.errors = s.errors.map GroupError.text ∧
      r.failedChecks = .ofNat s.failed ∧ r.results = s.results := by
  obtain ⟨reports, vs, u, -, hended⟩ := drive_bind_ok h
  obtain ⟨ended, us, v, -, hdone⟩ := drive_bind_ok hended
  cases hdone
  exact ⟨rfl, rfl, rfl, rfl⟩

theorem calmly_report (p : Plan κ) (s : Progress) (began : Nat) (gs : List Nat) (e : Engine κ) :
    Calmly deadline (report p s began gs) e fun r e' =>
      (r.abortReason = s.abort ∧ r.errors = s.errors.map GroupError.text ∧
        r.failedChecks = .ofNat s.failed ∧ r.results = s.results) ∧
      ∃ clock, e' = { e with clock := clock } := by
  have hasks := questions_report p s began gs
  obtain ⟨r, clock, hdrive⟩ := drive_questions hasks (neverPanics_report p s began gs) [] e
  have hplain : (report p s began gs).Only IsPlain := by
    refine hasks.mono fun op hop => ?_
    cases op with
    | spawn | await => exact absurd hop id
    | _ => trivial
  refine (calmly_plain hplain hdrive).mono ?_
  rintro _ _ ⟨rfl, rfl⟩
  exact ⟨report_of_drive hdrive, clock, rfl⟩

end Whole

end Conformance.Run
