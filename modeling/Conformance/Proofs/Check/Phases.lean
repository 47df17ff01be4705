import Conformance.Proofs.Check.Callbacks

/-!
The phases of a check run in order up to the first that does not go well, and the last call alone
decides how the run ends. A request to abort is told apart from every other error, in whatever
contexts it comes. The times are stamped before the first call and after the last, however that
ended, and the time limit is looked at only then.
-/
namespace Conformance

open Conformance.Group (Trail)

variable {κ : Type} {b : Behaviour κ}

namespace Failure

/-- The error is a request to abort with this message, in whatever contexts. -/
def AsksAbort (f : Failure) (message : String) : Prop :=
  ∃ outer inner, f.layers = outer ++ .abortRequest message :: inner ∧
    ∀ layer ∈ outer, ∀ m, layer ≠ .abortRequest m

theorem abortMessage?_eq_some_iff {f : Failure} {message : String} :
    f.abortMessage? = some message ↔ f.AsksAbort message := by
  rw [abortMessage?, List.findSome?_eq_some_iff, AsksAbort]
  constructor
  · rintro ⟨outer, layer, inner, hlayers, hlayer, houter⟩
    cases layer with
    | abortRequest m =>
      cases hlayer
      refine ⟨outer, inner, hlayers, ?_⟩
      rintro layer hmem m rfl
      cases houter _ hmem
    | _ => cases hlayer
  · rintro ⟨outer, inner, hlayers, houter⟩
    refine ⟨outer, _, inner, hlayers, rfl, ?_⟩
    intro layer hmem
    cases layer with
    | abortRequest m => exact absurd rfl (houter _ hmem m)
    | _ => rfl

theorem layers_withContexts (f : Failure) (contexts : List String) :
    (f.withContexts contexts).layers = contexts.reverse.map .text ++ f.layers := by
  induction contexts generalizing f with
  | nil => rfl
  | cons context rest ih =>
    rw [List.reverse_cons, List.map_append, List.append_assoc]
    exact ih (f.withContext context)

/-- Contexts hide no request to abort. -/
theorem asksAbort_withContexts (message : String) (inner : List Layer) (contexts : List String) :
    ((⟨.abortRequest message, inner⟩ : Failure).withContexts contexts).AsksAbort message := by
  refine ⟨contexts.reverse.map .text, inner, layers_withContexts _ contexts, ?_⟩
  intro layer hlayer m
  obtain ⟨context, -, rfl⟩ := List.mem_map.mp hlayer
  exact nofun

end Failure

namespace RunFault

variable {id : String} {phase : Phase} {f : Failure}

theorem ofFailure_eq_aborted_iff {message : String} :
    ofFailure id phase f = .aborted message ↔ f.AsksAbort message := by
  rw [← Failure.abortMessage?_eq_some_iff, ofFailure]
  cases f.abortMessage? <;> simp

theorem ofFailure_eq_inPhase_iff {id' : String} {phase' : Phase} {cause : Failure} :
    ofFailure id phase f = .inPhase id' phase' cause ↔
      id' = id ∧ phase' = phase ∧ cause = f ∧ ∀ message, ¬f.AsksAbort message := by
  simp only [← Failure.abortMessage?_eq_some_iff, ofFailure]
  cases f.abortMessage? <;> simp [eq_comm]

end RunFault

theorem Phase.call_injective (r : CheckRef) {phase phase' : Phase}
    (h : phase.call r = phase'.call r) : phase = phase' := by
  cases phase <;> cases phase' <;> first | rfl | cases h

namespace Running

def WentWell (result : Except Panic (Except Failure Unit)) : Prop := result = .ok (.ok ())

/-- How the run of a check ends, as the calls that were made decide it. -/
structure EndsAs (r : CheckRef) (id : String) (made : List (Called b.act))
    (x : Except Panic (Except RunFault Unit)) : Prop where
  well : x = .ok (.ok ()) ↔ ∀ a ∈ made, a.result = .ok (.ok ())
  aborted (message : String) : x = .ok (.error (.aborted message)) ↔
    ∃ a ∈ made, ∃ failure, a.result = .ok (.error failure) ∧ failure.AsksAbort message
  inPhase (id' : String) (phase : Phase) (cause : Failure) :
    x = .ok (.error (.inPhase id' phase cause)) ↔ id' = id ∧
      ∃ a ∈ made, a.call = phase.call r ∧ a.result = .ok (.error cause) ∧
        ∀ message, ¬cause.AsksAbort message
  panicked (panic : Panic) : x = .error panic ↔ ∃ a ∈ made, a.result = .error panic

/-- What the end of a phase makes of the run. -/
def verdict (id : String) (phase : Phase) :
    Except Panic (Except Failure Unit) → Except Panic (Except RunFault Unit)
  | .ok (.ok ()) => .ok (.ok ())
  | .ok (.error failure) => .ok (.error (.ofFailure id phase failure))
  | .error panic => .error panic

/-- After the last look at the clock, a check with a time limit may log that it is over. -/
inductive Closing (r : CheckRef) (c : Check κ) (began : Nat) : Trail κ → Prop
  | unlimited (h : c.timeout = none) : Closing r c began []
  | inTime {limit now : Nat} (h : c.timeout = some limit) (hnow : now - began ≤ limit) :
      Closing r c began [⟨.now, now⟩]
  | overrun {limit now : Nat} (h : c.timeout = some limit) (hnow : limit < now - began) :
      Closing r c began [⟨.now, now⟩, ⟨.request (.write r .warn ("Check " ++ c.id ++ " took " ++
        Time.spanText (now - began) ++ ", exceeding its timeout of " ++ Time.spanText limit)), ()⟩]

variable {r : CheckRef} {id : String} {made : List (Called b.act)}

theorem verdict_eq_aborted_iff {phase : Phase} {result : Except Panic (Except Failure Unit)}
    {message : String} : verdict id phase result = .ok (.error (.aborted message)) ↔
      ∃ failure, result = .ok (.error failure) ∧ failure.AsksAbort message := by
  rcases result with panic | failure | ⟨⟩
  · simp [verdict]
  · simp [verdict, RunFault.ofFailure_eq_aborted_iff]
  · simp [verdict]

theorem verdict_eq_inPhase_iff {phase phase' : Phase}
    {result : Except Panic (Except Failure Unit)} {id' : String} {cause : Failure} :
    verdict id phase result = .ok (.error (.inPhase id' phase' cause)) ↔
      id' = id ∧ phase' = phase ∧ result = .ok (.error cause) ∧
        ∀ message, ¬cause.AsksAbort message := by
  rcases result with panic | failure | ⟨⟩
  · simp [verdict]
  · simp only [verdict, Except.ok.injEq, Except.error.injEq, RunFault.ofFailure_eq_inPhase_iff]
    constructor
    · rintro ⟨rfl, rfl, rfl, hno⟩
      exact ⟨rfl, rfl, rfl, hno⟩
    · rintro ⟨rfl, rfl, rfl, hno⟩
      exact ⟨rfl, rfl, rfl, hno⟩
  · simp [verdict]

theorem verdict_eq_well_iff {phase : Phase} {result : Except Panic (Except Failure Unit)} :
    verdict id phase result = .ok (.ok ()) ↔ WentWell result := by
  rcases result with panic | failure | ⟨⟩ <;> simp [verdict, WentWell]

theorem not_wentWell_of_verdict {phase : Phase} {result : Except Panic (Except Failure Unit)}
    {x : Except Panic (Except RunFault Unit)} (h : x = verdict id phase result)
    (hx : x ≠ .ok (.ok ())) : ¬WentWell result := fun hwell =>
  hx (h.trans (verdict_eq_well_iff.mpr hwell))

theorem verdict_eq_error_iff {phase : Phase} {result : Except Panic (Except Failure Unit)}
    {panic : Panic} : verdict id phase result = .error panic ↔ result = .error panic := by
  rcases result with panic | failure | ⟨⟩ <;> simp [verdict]

theorem EndsAs.finished : EndsAs r id ([] : List (Called b.act)) (.ok (.ok ())) where
  well := by simp
  aborted message := by simp
  inPhase id' phase cause := by simp
  panicked panic := by simp

theorem EndsAs.called {a : Called b.act} {phase : Phase} (hcall : a.call = phase.call r) :
    EndsAs r id [a] (verdict id phase a.result) where
  well := by rw [verdict_eq_well_iff, List.forall_mem_singleton, WentWell]
  aborted message := by simp [verdict_eq_aborted_iff]
  inPhase id' phase' cause := by
    have hphase : phase' = phase ↔ phase.call r = phase'.call r :=
      ⟨fun h => by rw [h], fun h => (Phase.call_injective r h).symm⟩
    simp [verdict_eq_inPhase_iff, hcall, hphase]
  panicked panic := by simp [verdict_eq_error_iff]

/-- A call that went well leaves the end to the calls after it. -/
theorem EndsAs.next {a : Called b.act} (ha : WentWell a.result)
    {x : Except Panic (Except RunFault Unit)} (h : EndsAs r id made x) :
    EndsAs r id (a :: made) x := by
  rw [WentWell] at ha
  constructor
  · rw [h.well, List.forall_mem_cons, and_iff_right ha]
  · intro message
    simp [h.aborted, ha]
  · intro id' phase cause
    simp [h.inPhase, ha]
  · intro panic
    simp [h.panicked, ha]

theorem goes_runPhase {phase : Phase} {callback : κ} {t : Trail κ}
    {x : Except Panic (Except RunFault Unit)}
    (h : (runPhase b r id phase callback).Goes t x) :
    ∃ a : Called b.act, a.callback = callback ∧ a.call = phase.call r ∧ t = a.trail ∧
      x = verdict id phase a.result := by
  simp only [runPhase, Worker.act, Prog.bind_eq, Prog.pure_eq] at h
  obtain ⟨-, t, rfl, hcalled⟩ := Prog.goes_request_bind h
  rcases Prog.goes_bind hcalled with ⟨asked, u, result, rfl, hgoes, hrest⟩ | ⟨panic, rfl, hgoes⟩
  · refine ⟨⟨callback, phase.call r, asked, .ok result, hgoes⟩, rfl, rfl, ?_⟩
    cases result with
    | ok value =>
      obtain ⟨rfl, rfl⟩ := Prog.goes_done hrest
      exact ⟨by rw [List.append_nil]; rfl, rfl⟩
    | error failure =>
      obtain ⟨rfl, rfl⟩ := Prog.goes_done hrest
      exact ⟨by rw [List.append_nil]; rfl, rfl⟩
  · exact ⟨⟨callback, phase.call r, t, .error panic, hgoes⟩, rfl, rfl, rfl, rfl⟩

/-- The phases are called in order up to one that does not go well, with nothing between them. -/
theorem goes_runPhases {steps : List (Phase × κ)} {t : Trail κ}
    {x : Except Panic (Except RunFault Unit)} (h : (runPhases b r id steps).Goes t x) :
    ∃ made : List (Called b.act), InOrder WentWell (calling r steps) made ∧
      t = made.flatMap Called.trail ∧ EndsAs r id made x := by
  induction steps generalizing t with
  | nil =>
    obtain ⟨rfl, rfl⟩ := Prog.goes_done h
    exact ⟨[], .finished, rfl, .finished⟩
  | cons step rest ih =>
    obtain ⟨phase, callback⟩ := step
    simp only [runPhases, Prog.bind_eq, Prog.pure_eq] at h
    have hdue (a : Called b.act) (hcallback : a.callback = callback)
        (hcall : a.call = phase.call r) :
        calling r ((phase, callback) :: rest) = (a.callback, a.call) :: calling r rest := by
      rw [hcallback, hcall]
      rfl
    rcases Prog.goes_bind h with ⟨t, u, y, rfl, hphase, hrest⟩ | ⟨panic, rfl, hphase⟩
    · obtain ⟨a, hcallback, hcall, rfl, hy⟩ := goes_runPhase hphase
      rw [hdue a hcallback hcall]
      cases y with
      | ok value =>
        have hwell : WentWell a.result := verdict_eq_well_iff.mp hy.symm
        obtain ⟨made, horder, rfl, hends⟩ := ih hrest
        exact ⟨a :: made, .next a hwell horder, rfl, hends.next hwell⟩
      | error fault =>
        obtain ⟨rfl, rfl⟩ := Prog.goes_done hrest
        have hbad := not_wentWell_of_verdict hy nofun
        exact ⟨[a], .stopped a _ hbad, by simp, hy ▸ .called hcall⟩
    · obtain ⟨a, hcallback, hcall, rfl, hy⟩ := goes_runPhase hphase
      rw [hdue a hcallback hcall]
      have hbad := not_wentWell_of_verdict hy nofun
      exact ⟨[a], .stopped a _ hbad, by simp, hy ▸ .called hcall⟩

theorem goes_finish {c : Check κ} {began : Nat} {t : Trail κ} {x : Except Panic Unit}
    (h : (finish r c began).Goes t x) :
    ∃ closing, t = ⟨.finish r, ()⟩ :: closing ∧ Closing r c began closing ∧ x = .ok () := by
  simp only [finish, Worker.act, Prog.bind_eq, Prog.pure_eq] at h
  obtain ⟨-, t, rfl, hlimit⟩ := Prog.goes_request_bind h
  refine ⟨t, rfl, ?_⟩
  cases htimeout : c.timeout with
  | none =>
    rw [htimeout] at hlimit
    obtain ⟨rfl, rfl⟩ := Prog.goes_done hlimit
    exact ⟨.unlimited htimeout, rfl⟩
  | some limit =>
    rw [htimeout] at hlimit
    obtain ⟨now, t, rfl, hlook⟩ := Prog.goes_request_bind hlimit
    split at hlook
    · rename_i hover
      obtain ⟨_, t, rfl, hdone⟩ := Prog.goes_request_bind hlook
      obtain ⟨rfl, rfl⟩ := Prog.goes_done hdone
      exact ⟨.overrun htimeout hover, rfl⟩
    · rename_i hin
      obtain ⟨rfl, rfl⟩ := Prog.goes_done hlook
      exact ⟨.inTime htimeout (Nat.le_of_not_lt hin), rfl⟩

/-- A run of a check that has a body and was built without a fault, with its whole trail. -/
structure RunsThrough (b : Behaviour κ) (r : CheckRef) (c : Check κ) (body : κ) (t : Trail κ)
    (x : Except Panic (Except RunFault Unit)) (made : List (Called b.act)) : Prop where
  inOrder : InOrder WentWell (c.due r body) made
  trail : ∃ began closing, Closing r c began closing ∧
    t = ⟨.begin r, began⟩ :: (made.flatMap Called.trail ++ ⟨.finish r, ()⟩ :: closing)
  endsAs : EndsAs r c.id made x

theorem goes_run {c : Check κ} {body : κ} (hfault : c.fault = none) (hbody : c.body = some body)
    {t : Trail κ} {x : Except Panic (Except RunFault Unit)} (h : (run b r c).Goes t x) :
    ∃ made : List (Called b.act), RunsThrough b r c body t x made := by
  simp only [run, hfault, hbody, Worker.act, Prog.bind_eq, Prog.pure_eq] at h
  obtain ⟨began, t, rfl, hbegun⟩ := Prog.goes_request_bind h
  obtain ⟨t, u, y, rfl, hphases, hrest⟩ := Prog.goes_guarded_bind hbegun
  obtain ⟨made, horder, rfl, hends⟩ := goes_runPhases hphases
  rw [calling_phases] at horder
  rcases Prog.goes_bind hrest with ⟨u, v, _, rfl, hfinish, hlast⟩ | ⟨q, -, hfinish⟩
  · obtain ⟨closing, rfl, hclosing, -⟩ := goes_finish hfinish
    have hend : v = [] ∧ x = y := by
      cases y with
      | ok result => exact Prog.goes_done hlast
      | error panic => exact Prog.goes_panic hlast
    obtain ⟨rfl, rfl⟩ := hend
    exact ⟨made, horder, ⟨began, closing, hclosing, by rw [List.append_nil]⟩, hends⟩
  · obtain ⟨-, -, -, hx⟩ := goes_finish hfinish
    cases hx

end Running

end Conformance
