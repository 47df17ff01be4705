import Conformance.Proofs.Group.Calls
import Conformance.Proofs.Group.Iterations

/-!
The lists of checks that a group run hands to the hooks around all checks. The rounds call callbacks
for single checks only, so that the two hooks are all that is left: each is called once with the
checks that the filter selects, and neither of them when it selects none.
-/
namespace Conformance.Group

variable {κ : Type}

section Rounds

/-- Every call is one for a single check. -/
def ForChecks (turns : List (Turn κ)) : Prop :=
  ∀ call ∈ turns.filterMap Turn.call?, call.check?.isSome

variable {effect : Failure → Ending} {hooks : Hooks κ} {m : Member κ}
  {turns others : List (Turn κ)} {ending : Ending}

theorem ForChecks.append (h : ForChecks turns) (h' : ForChecks others) :
    ForChecks (turns ++ others) := by
  intro call hcall
  rw [List.filterMap_append] at hcall
  rcases List.mem_append.mp hcall with hcall | hcall
  · exact h call hcall
  · exact h' call hcall

theorem forChecks_nil : ForChecks ([] : List (Turn κ)) := nofun

theorem ForChecks.look (h : ForChecks turns) (stopped : Bool) :
    ForChecks (.look stopped :: turns) := h

theorem HookTurns.calls {hook : Option κ} {call : Call}
    (h : HookTurns effect hook call turns ending) :
    turns.filterMap Turn.call? = hook.toList.map fun _ => call := by
  cases h with
  | absent hnone => rw [hnone]; rfl
  | called hsome => rw [hsome]; rfl

theorem HookTurns.forChecks {hook : Option κ} {call : Call}
    (h : HookTurns effect hook call turns ending) (hcall : call.check?.isSome) :
    ForChecks turns := by
  rw [ForChecks, h.calls]
  exact List.forall_mem_map.mpr fun _ _ => hcall

theorem ExcuseTurns.forChecks {r : CheckRef} {index : Nat} {callbacks : List κ}
    {reasons : List String} {panicked : Bool}
    (h : ExcuseTurns r index callbacks turns reasons panicked) : ForChecks turns := by
  induction h with
  | finished => exact forChecks_nil
  | panicked => exact List.forall_mem_singleton.mpr rfl
  | answered _ _ _ ih => exact List.forall_mem_cons.mpr ⟨rfl, ih⟩

theorem PhaseTurns.forChecks {r : CheckRef} {steps : List (Phase × κ)}
    (h : PhaseTurns effect r steps turns ending) : ForChecks turns := by
  have hphase (phase : Phase) : (phase.call r).check?.isSome := by cases phase <;> rfl
  induction h with
  | finished => exact forChecks_nil
  | failed phase => exact List.forall_mem_singleton.mpr (hphase phase)
  | next phase _ _ ih => exact List.forall_mem_cons.mpr ⟨hphase phase, ih⟩

theorem BodyTurns.forChecks (h : BodyTurns effect m turns ending) : ForChecks turns := by
  cases h with
  | unfit => exact forChecks_nil
  | ran _ _ hphases => exact hphases.forChecks

theorem CheckTurns.forChecks (h : CheckTurns effect hooks m turns ending) : ForChecks turns := by
  cases h with
  | unready h => exact h.forChecks rfl
  | excused h hasked => exact (h.forChecks rfl).append hasked.forChecks
  | ran h hasked _ hbody =>
    exact (h.forChecks rfl).append (hasked.forChecks.append hbody.forChecks)

theorem IterationTurns.forChecks (h : IterationTurns effect hooks m turns ending) :
    ForChecks turns := by
  cases h with
  | closed h _ hafter => exact h.forChecks.append (hafter.forChecks rfl)
  | cut h => exact h.forChecks

theorem LoopTurns.forChecks {ms : List (Member κ)} (h : LoopTurns effect hooks ms turns ending) :
    ForChecks turns := by
  induction h with
  | finished => exact forChecks_nil
  | stopped => exact forChecks_nil.look true
  | failed _ h => exact h.forChecks.look false
  | next h _ ih => exact (h.forChecks.append ih).look false

end Rounds

section Handovers

/-- The calls that hand a list of checks over. -/
def handovers (calls : List Call) : List Call := calls.filter fun call => call.check?.isNone

/-- The calls around the rounds, with the selected checks. -/
def around (g : Nat) (hooks : Hooks κ) (chosen : List (Member κ)) : List Call :=
  if chosen.isEmpty then []
  else
    (hooks.beforeAll.toList.map fun _ => .beforeAll g (chosen.map Prod.fst)) ++
      hooks.afterAll.toList.map fun _ => .afterAll g (chosen.map Prod.fst)

variable {effect : Failure → Ending} {g : Nat} {hooks : Hooks κ} {chosen : List (Member κ)}
  {turns : List (Turn κ)} {ending : Ending}

theorem handovers_append (calls others : List Call) :
    handovers (calls ++ others) = handovers calls ++ handovers others := List.filter_append ..

theorem ForChecks.handovers (h : ForChecks turns) :
    handovers (turns.filterMap Turn.call?) = [] := by
  refine List.filter_eq_nil_iff.mpr fun call hcall => ?_
  obtain ⟨r, hr⟩ := Option.isSome_iff_exists.mp (h call hcall)
  simp [hr]

theorem HookTurns.handovers {hook : Option κ} {call : Call}
    (h : HookTurns effect hook call turns ending) (hcall : call.check? = none) :
    handovers (turns.filterMap Turn.call?) = hook.toList.map fun _ => call := by
  rw [h.calls]
  refine List.filter_eq_self.mpr (List.forall_mem_map.mpr fun _ _ => ?_)
  rw [hcall]
  rfl

theorem InnerTurns.handovers (h : InnerTurns effect g hooks chosen turns ending) :
    handovers (turns.filterMap Turn.call?) =
      hooks.beforeAll.toList.map fun _ => .beforeAll g (chosen.map Prod.fst) := by
  cases h with
  | unready h => exact h.handovers rfl
  | looped h hloop =>
    rw [List.filterMap_append, handovers_append, h.handovers rfl, hloop.forChecks.handovers,
      List.append_nil]

/-- The selected checks are handed over before the rounds and after them, unless the run is cut
short in between. -/
theorem RunTurns.handovers (h : RunTurns effect g hooks chosen turns ending) :
    handovers (turns.filterMap Turn.call?) <+: around g hooks chosen ∧
      ((∀ panic, ending ≠ .cut panic) →
        handovers (turns.filterMap Turn.call?) = around g hooks chosen) := by
  have haround (hne : chosen ≠ []) : around g hooks chosen =
      (hooks.beforeAll.toList.map fun _ => .beforeAll g (chosen.map Prod.fst)) ++
        hooks.afterAll.toList.map fun _ => .afterAll g (chosen.map Prod.fst) :=
    if_neg (by simpa using hne)
  cases h with
  | idle hnil =>
    rw [hnil]
    exact ⟨List.prefix_rfl, fun _ => rfl⟩
  | closed hne hinner _ hafter =>
    rw [List.filterMap_append, handovers_append, hinner.handovers, hafter.handovers rfl,
      haround hne]
    exact ⟨List.prefix_rfl, fun _ => rfl⟩
  | @cut _ panic hne hinner =>
    rw [hinner.handovers, haround hne]
    exact ⟨List.prefix_append _ _, fun hwhole => absurd rfl (hwhole panic)⟩

/-- The lists that a trail hands over. -/
def handed (t : Trail κ) : List Call := handovers (t.flatMap called)

theorem handed_append (t u : Trail κ) : handed (t ++ u) = handed t ++ handed u := by
  rw [handed, List.flatMap_append, handovers_append, handed, handed]

/-- A group run first reads the checks of its group. Whatever lists it hands over are those of the
checks among them that the filter selects. -/
theorem handed_of_goes {b : Behaviour κ} {filter : Label.Filter} {token : Nat}
    {handle : Option AbortHandle} {t : Trail κ} {x : Except Panic Outcome}
    (h : (run b g filter token handle).Goes t x) :
    ∃ checks hooks u,
      t = ⟨.setCursor g none, ()⟩ :: ⟨.request (.checks g), checks⟩ :: u ∧
      (⟨.hooks g, hooks⟩ ∈ u ∨ selected filter (members g checks) = []) ∧
      handed t <+: around g hooks (selected filter (members g checks)) ∧
      ((∀ panic, x ≠ .error panic) →
        handed t = around g hooks (selected filter (members g checks))) := by
  obtain ⟨_, t₁, rfl, hchecks⟩ := Prog.goes_ask h
  obtain ⟨checks, u, rfl, -⟩ := Prog.goes_ask hchecks
  obtain ⟨hooks, turns, hhooks, htells, hturns⟩ := course_run h
  have hcalls : handed (⟨.setCursor g none, ()⟩ :: ⟨.request (.checks g), checks⟩ :: u) =
      handovers (turns.filterMap Turn.call?) := by
    rw [← htells.called]
    rfl
  obtain ⟨hbegins, hwhole⟩ := hturns.handovers
  refine ⟨checks, hooks, u, rfl, hhooks, hcalls ▸ hbegins, fun hx => ?_⟩
  rw [hcalls]
  refine hwhole fun panic => ?_
  cases x with
  | ok outcome => exact shown_ok_ne_cut failing outcome panic
  | error q => exact absurd rfl (hx q)

end Handovers

end Conformance.Group
