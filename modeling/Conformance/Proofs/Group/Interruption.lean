import Conformance.Proofs.Group.Lifecycle

/-!
When the order of calls is the one that is meant. A run keeps to it unless an error whose text
cannot be had comes from a callback that some hook should still have followed: nothing is called
after such an error, and the hooks that are owed are lost.
-/
namespace Conformance.Group

variable {κ : Type}

/-- The phases of a check, whose requests to abort are told from other errors. -/
def isPhase : Call → Bool
  | .before _ | .body _ | .after _ => true
  | _ => false

namespace Turn

def ending : Turn κ → Ending
  | act _ call result =>
    if isPhase call then .ofPhase .ofFailure result else .ofHook .ofFailure result
  | _ => .well

/-- Nothing goes on after a turn that breaks. -/
def Breaks (turn : Turn κ) : Prop := ∃ panic, turn.ending = .cut panic

/-- Whether a hook should follow the turn, however it ended: the one after its check, or the one
after all checks. -/
def owes (hooks : Hooks κ) (turn : Turn κ) : Bool :=
  match turn.call? with
  | none => false
  | some (.afterAll ..) => false
  | some (.beforeAll ..) => hooks.afterAll.isSome
  | some (.afterEach _) => hooks.afterAll.isSome
  | some _ => hooks.afterAll.isSome || hooks.afterEach.isSome

end Turn

section Breaking

/-- Only the last turn may break, and it does where the part is cut short. -/
inductive Intact : List (Turn κ) → Ending → Prop
  | whole {turns : List (Turn κ)} {ending : Ending} (h : ∀ turn ∈ turns, ¬turn.Breaks)
      (hcut : ∀ panic, ending ≠ .cut panic) : Intact turns ending
  | cut {earlier : List (Turn κ)} {last : Turn κ} {panic : Panic}
      (h : ∀ turn ∈ earlier, ¬turn.Breaks) (hlast : last.ending = .cut panic) :
      Intact (earlier ++ [last]) (.cut panic)

theorem Intact.unbroken {turns : List (Turn κ)} {ending : Ending} (h : Intact turns ending)
    (hcut : ∀ panic, ending ≠ .cut panic) : ∀ turn ∈ turns, ¬turn.Breaks := by
  cases h with
  | whole h => exact h
  | cut => exact absurd rfl (hcut _)

theorem Intact.append {turns later : List (Turn κ)} {ending : Ending}
    (h : ∀ turn ∈ turns, ¬turn.Breaks) (hlater : Intact later ending) :
    Intact (turns ++ later) ending := by
  cases hlater with
  | whole hrest hcut => exact .whole (List.forall_mem_append.mpr ⟨h, hrest⟩) hcut
  | cut hrest hlast =>
    rw [← List.append_assoc]
    exact .cut (List.forall_mem_append.mpr ⟨h, hrest⟩) hlast

theorem Intact.followedBy {turns later : List (Turn κ)} {ending last : Ending}
    (h : Intact turns ending) (hcut : ∀ panic, ending ≠ .cut panic) (hlater : Intact later last) :
    Intact (turns ++ later) (ending.followedBy last) := by
  have happended := Intact.append (h.unbroken hcut) hlater
  cases ending with
  | well => exact happended
  | badly =>
    cases last with
    | well => exact .whole (happended.unbroken nofun) nofun
    | badly => exact happended
    | cut panic => exact happended
  | cut panic => exact absurd rfl (hcut panic)

theorem Intact.last_of_breaks {turns : List (Turn κ)} {ending : Ending} (h : Intact turns ending)
    {turn : Turn κ} (hmem : turn ∈ turns) (hbreaks : turn.Breaks) :
    turns.getLast? = some turn := by
  cases h with
  | whole h => exact absurd hbreaks (h turn hmem)
  | cut h =>
    rcases List.mem_append.mp hmem with hearlier | hlast
    · exact absurd hbreaks (h turn hearlier)
    · rw [List.mem_singleton.mp hlast, List.getLast?_concat]

theorem intact_act (callback : κ) (call : Call) (result : Except Panic (Except Failure Unit)) :
    Intact [.act callback call result] (Turn.act callback call result).ending := by
  cases hending : (Turn.act callback call result).ending with
  | cut panic => exact Intact.cut (List.forall_mem_nil _) hending
  | _ =>
    refine .whole ?_ nofun
    intro turn hmem hbreaks
    obtain ⟨panic, hpanic⟩ := hbreaks
    rw [List.mem_singleton.mp hmem, hending] at hpanic
    cases hpanic

variable {hooks : Hooks κ} {turns : List (Turn κ)} {ending : Ending}

theorem HookTurns.intact {hook : Option κ} {call : Call} (hcall : isPhase call = false)
    (h : HookTurns .ofFailure hook call turns ending) : Intact turns ending := by
  cases h with
  | absent => exact .whole (List.forall_mem_nil _) nofun
  | @called callback _ result =>
    have hintact := intact_act callback call result
    rw [Turn.ending, hcall] at hintact
    exact hintact

theorem ExcuseTurns.unbroken {r : CheckRef} {index : Nat} {callbacks : List κ}
    {reasons : List String} {panicked : Bool}
    (h : ExcuseTurns r index callbacks turns reasons panicked) :
    ∀ turn ∈ turns, ¬turn.Breaks := by
  have hexcuse : ∀ (callback : κ) (index : Nat) (answer : Except Panic (Option String)),
      ¬(Turn.excuse callback (.skip r index) answer).Breaks := by
    intro callback index answer hbreaks
    obtain ⟨panic, hpanic⟩ := hbreaks
    cases hpanic
  induction h with
  | finished => exact List.forall_mem_nil _
  | panicked index callback rest panic =>
    intro turn hmem
    rw [List.mem_singleton.mp hmem]
    exact hexcuse callback index (.error panic)
  | @answered index _ _ _ _ callback answer _ ih =>
    exact List.forall_mem_cons.mpr ⟨hexcuse callback index (.ok answer), ih⟩

theorem PhaseTurns.intact {r : CheckRef} {steps : List (Phase × κ)}
    (h : PhaseTurns .ofFailure r steps turns ending) : Intact turns ending := by
  have hphase : ∀ (phase : Phase) (callback : κ) (result : Except Panic (Except Failure Unit)),
      Intact [.act callback (phase.call r) result] (.ofPhase .ofFailure result) := by
    intro phase callback result
    have hintact := intact_act callback (phase.call r) result
    cases phase <;> exact hintact
  induction h with
  | finished => exact .whole (List.forall_mem_nil _) nofun
  | failed phase callback rest result => exact hphase phase callback result
  | next phase callback _ ih =>
    exact Intact.append ((hphase phase callback (.ok (.ok ()))).unbroken nofun) ih

theorem BodyTurns.intact {m : Member κ} (h : BodyTurns .ofFailure m turns ending) :
    Intact turns ending := by
  cases h with
  | unfit => exact .whole (List.forall_mem_nil _) nofun
  | ran _ _ h => exact h.intact

theorem CheckTurns.intact {m : Member κ} (h : CheckTurns .ofFailure hooks m turns ending) :
    Intact turns ending := by
  cases h with
  | unready h => exact h.intact rfl
  | excused h hasked =>
    exact .whole (List.forall_mem_append.mpr ⟨(h.intact rfl).unbroken nofun, hasked.unbroken⟩) nofun
  | ran h hasked _ hbody =>
    exact .append ((h.intact rfl).unbroken nofun) (.append hasked.unbroken hbody.intact)

theorem IterationTurns.intact {m : Member κ} (h : IterationTurns .ofFailure hooks m turns ending) :
    Intact turns ending := by
  cases h with
  | closed h hcut hafter => exact h.intact.followedBy hcut (hafter.intact rfl)
  | cut h => exact h.intact

theorem not_breaks_look (stopped : Bool) : ¬(Turn.look stopped : Turn κ).Breaks := by
  intro hbreaks
  obtain ⟨panic, hpanic⟩ := hbreaks
  cases hpanic

theorem Intact.look (stopped : Bool) (h : Intact turns ending) :
    Intact (.look stopped :: turns) ending :=
  Intact.append (List.forall_mem_singleton.mpr (not_breaks_look stopped)) h

theorem LoopTurns.intact {ms : List (Member κ)} (h : LoopTurns .ofFailure hooks ms turns ending) :
    Intact turns ending := by
  induction h with
  | finished => exact .whole (List.forall_mem_nil _) nofun
  | stopped => exact .look true (.whole (List.forall_mem_nil _) nofun)
  | failed rest h => exact .look false h.intact
  | next h _ ih => exact .look false (.append (h.intact.unbroken nofun) ih)

theorem InnerTurns.intact {g : Nat} {selected : List (Member κ)}
    (h : InnerTurns .ofFailure g hooks selected turns ending) : Intact turns ending := by
  cases h with
  | unready h => exact h.intact rfl
  | looped h hloop => exact .append ((h.intact rfl).unbroken nofun) hloop.intact

theorem RunTurns.intact {g : Nat} {selected : List (Member κ)}
    (h : RunTurns .ofFailure g hooks selected turns ending) : Intact turns ending := by
  cases h with
  | idle => exact .whole (List.forall_mem_nil _) nofun
  | closed _ h hcut hafter => exact h.intact.followedBy hcut (hafter.intact rfl)
  | cut _ h => exact h.intact

end Breaking

section Meaning

/-- The ending that a part would have had if every text could be had. -/
def Ending.mended : Ending → Ending
  | .cut _ => .badly
  | ending => ending

theorem mended_of_not_cut {ending : Ending} (h : ∀ panic, ending ≠ .cut panic) :
    ending.mended = ending := by
  cases ending with
  | cut panic => exact absurd rfl (h panic)
  | _ => rfl

theorem mended_ne_well {ending : Ending} (h : ending ≠ .well) : ending.mended ≠ .well := by
  cases ending with
  | well => exact absurd rfl h
  | _ => exact nofun

theorem mended_not_cut (ending : Ending) (panic : Panic) : ending.mended ≠ .cut panic := by
  cases ending <;> exact nofun

theorem mended_followedBy {ending last : Ending} (h : ∀ panic, ending ≠ .cut panic) :
    (ending.followedBy last).mended = ending.followedBy last.mended := by
  cases ending with
  | cut panic => exact absurd rfl (h panic)
  | _ => cases last <;> rfl

theorem mended_ofFailure (failure : Failure) : (Ending.ofFailure failure).mended = .badly := by
  unfold Ending.ofFailure
  split <;> rfl

theorem mended_ofHook (result : Except Panic (Except Failure Unit)) :
    (Ending.ofHook .ofFailure result).mended = .ofHook .meant result := by
  match result with
  | .ok (.ok ()) => rfl
  | .ok (.error failure) => exact mended_ofFailure failure
  | .error _ => rfl

theorem mended_ofPhase (result : Except Panic (Except Failure Unit)) :
    (Ending.ofPhase .ofFailure result).mended = .ofPhase .meant result := by
  match result with
  | .ok (.ok ()) => rfl
  | .ok (.error failure) =>
    simp only [Ending.ofPhase]
    split
    · rfl
    · exact mended_ofFailure failure
  | .error _ => rfl

variable {hooks : Hooks κ} {turns : List (Turn κ)} {ending : Ending}

theorem HookTurns.mended {hook : Option κ} {call : Call}
    (h : HookTurns .ofFailure hook call turns ending) :
    HookTurns .meant hook call turns ending.mended := by
  cases h with
  | absent h => exact .absent h
  | called h result =>
    rw [mended_ofHook]
    exact .called h result

theorem PhaseTurns.mended {r : CheckRef} {steps : List (Phase × κ)}
    (h : PhaseTurns .ofFailure r steps turns ending) :
    PhaseTurns .meant r steps turns ending.mended := by
  induction h with
  | finished => exact .finished
  | failed phase callback rest result hbad =>
    have hmended := mended_ne_well hbad
    rw [mended_ofPhase] at hmended ⊢
    exact .failed phase callback rest result hmended
  | next phase callback _ ih => exact .next phase callback ih

theorem CheckTurns.mended {m : Member κ} (h : CheckTurns .ofFailure hooks m turns ending) :
    CheckTurns .meant hooks m turns ending.mended := by
  cases h with
  | unready h hbad => exact .unready h.mended (mended_ne_well hbad)
  | excused h hasked hskips => exact .excused h.mended hasked hskips
  | ran h hasked hskips hbody =>
    refine .ran h.mended hasked hskips ?_
    cases hbody with
    | unfit h => exact .unfit h
    | ran hfault hbody hphases => exact .ran hfault hbody hphases.mended

/-- Every turn of a check is owed both hooks that come after it. -/
def OwesBoth (hooks : Hooks κ) (turns : List (Turn κ)) : Prop :=
  ∀ turn ∈ turns, turn.owes hooks = (hooks.afterAll.isSome || hooks.afterEach.isSome)

theorem ExcuseTurns.owesBoth {r : CheckRef} {index : Nat} {callbacks : List κ}
    {reasons : List String} {panicked : Bool}
    (h : ExcuseTurns r index callbacks turns reasons panicked) : OwesBoth hooks turns := by
  induction h with
  | finished => exact List.forall_mem_nil _
  | panicked => exact List.forall_mem_singleton.mpr rfl
  | answered callback answer _ ih => exact List.forall_mem_cons.mpr ⟨rfl, ih⟩

theorem PhaseTurns.owesBoth {effect : Failure → Ending} {r : CheckRef} {steps : List (Phase × κ)}
    (h : PhaseTurns effect r steps turns ending) : OwesBoth hooks turns := by
  induction h with
  | finished => exact List.forall_mem_nil _
  | failed phase => cases phase <;> exact List.forall_mem_singleton.mpr rfl
  | next phase _ _ ih => cases phase <;> exact List.forall_mem_cons.mpr ⟨rfl, ih⟩

theorem HookTurns.call {effect : Failure → Ending} {hook : Option κ} {call : Call}
    (h : HookTurns effect hook call turns ending) :
    ∀ turn ∈ turns, turn.call? = some call := by
  cases h with
  | absent => exact List.forall_mem_nil _
  | called => exact List.forall_mem_singleton.mpr rfl

theorem CheckTurns.owesBoth {effect : Failure → Ending} {m : Member κ}
    (h : CheckTurns effect hooks m turns ending) : OwesBoth hooks turns := by
  have hhook : ∀ {turns : List (Turn κ)} {ending : Ending},
      HookTurns effect hooks.beforeEach (.beforeEach m.1) turns ending → OwesBoth hooks turns := by
    intro turns ending h turn hmem
    rw [Turn.owes, h.call turn hmem]
  cases h with
  | unready h => exact hhook h
  | excused h hasked => exact List.forall_mem_append.mpr ⟨hhook h, hasked.owesBoth⟩
  | ran h hasked _ hbody =>
    refine List.forall_mem_append.mpr ⟨hhook h, List.forall_mem_append.mpr ⟨hasked.owesBoth, ?_⟩⟩
    cases hbody with
    | unfit => exact List.forall_mem_nil _
    | ran _ _ h => exact h.owesBoth

/-- A turn of this kind is owed the hook after all checks, unless it is a look. -/
def OwesLast (hooks : Hooks κ) (turns : List (Turn κ)) : Prop :=
  ∀ turn ∈ turns, turn.Breaks → turn.owes hooks = false → hooks.afterAll = none

theorem OwesBoth.last (h : OwesBoth hooks turns) : OwesLast hooks turns := by
  intro turn hmem _ howes
  rw [h turn hmem, Bool.or_eq_false_iff] at howes
  simpa using howes.1

theorem IterationTurns.owesLast {effect : Failure → Ending} {m : Member κ}
    (h : IterationTurns effect hooks m turns ending) : OwesLast hooks turns := by
  cases h with
  | closed h _ hafter =>
    refine List.forall_mem_append.mpr ⟨h.owesBoth.last, ?_⟩
    intro turn hmem _ howes
    rw [Turn.owes, hafter.call turn hmem] at howes
    simpa using howes
  | cut h => exact h.owesBoth.last

theorem OwesLast.look (stopped : Bool) (h : OwesLast hooks turns) :
    OwesLast hooks (.look stopped :: turns) :=
  List.forall_mem_cons.mpr ⟨fun hbreaks => absurd hbreaks (not_breaks_look stopped), h⟩

theorem LoopTurns.owesLast {effect : Failure → Ending} {ms : List (Member κ)}
    (h : LoopTurns effect hooks ms turns ending) : OwesLast hooks turns := by
  induction h with
  | finished => exact List.forall_mem_nil _
  | stopped => exact OwesLast.look true (List.forall_mem_nil _)
  | failed rest h => exact h.owesLast.look false
  | next h _ ih => exact OwesLast.look false (List.forall_mem_append.mpr ⟨h.owesLast, ih⟩)

theorem InnerTurns.owesLast {effect : Failure → Ending} {g : Nat} {selected : List (Member κ)}
    (h : InnerTurns effect g hooks selected turns ending) : OwesLast hooks turns := by
  have hhook : ∀ {turns : List (Turn κ)} {ending : Ending},
      HookTurns effect hooks.beforeAll (.beforeAll g (selected.map Prod.fst)) turns ending →
      OwesLast hooks turns := by
    intro turns ending h turn hmem _ howes
    rw [Turn.owes, h.call turn hmem] at howes
    simpa using howes
  cases h with
  | unready h => exact hhook h
  | looped h hloop => exact List.forall_mem_append.mpr ⟨hhook h, hloop.owesLast⟩

/-- No turn breaks that a hook should still have followed. -/
def Settled (hooks : Hooks κ) (turns : List (Turn κ)) : Prop :=
  ∀ turn ∈ turns, turn.Breaks → turn.owes hooks = false

theorem Intact.exists_breaks {panic : Panic} (h : Intact turns (.cut panic)) :
    ∃ turn ∈ turns, turn.Breaks := by
  cases h with
  | whole _ hcut => exact absurd rfl (hcut panic)
  | cut _ hlast => exact ⟨_, List.mem_append_right _ List.mem_cons_self, panic, hlast⟩

theorem IterationTurns.mended {m : Member κ} (h : IterationTurns .ofFailure hooks m turns ending)
    (hsettled : Settled hooks turns) : IterationTurns .meant hooks m turns ending.mended := by
  cases h with
  | closed h hcut hafter =>
    have hchecked := h.mended
    rw [mended_of_not_cut hcut] at hchecked
    rw [mended_followedBy hcut]
    exact .closed hchecked hcut hafter.mended
  | cut h =>
    obtain ⟨turn, hmem, hbreaks⟩ := h.intact.exists_breaks
    have howes := hsettled turn hmem hbreaks
    rw [h.owesBoth turn hmem, Bool.or_eq_false_iff] at howes
    have hnone : hooks.afterEach = none := by simpa using howes.2
    have hclosed := IterationTurns.closed h.mended (mended_not_cut _) (.absent hnone)
    rwa [List.append_nil] at hclosed

theorem LoopTurns.mended {ms : List (Member κ)} (h : LoopTurns .ofFailure hooks ms turns ending)
    (hsettled : Settled hooks turns) : LoopTurns .meant hooks ms turns ending.mended := by
  induction h with
  | finished => exact .finished
  | stopped m rest => exact .stopped m rest
  | failed rest h hbad =>
    exact .failed rest (h.mended (List.forall_mem_cons.mp hsettled).2) (mended_ne_well hbad)
  | next h _ ih =>
    obtain ⟨hround, hlater⟩ := List.forall_mem_append.mp (List.forall_mem_cons.mp hsettled).2
    exact .next (h.mended hround) (ih hlater)

theorem InnerTurns.mended {g : Nat} {selected : List (Member κ)}
    (h : InnerTurns .ofFailure g hooks selected turns ending) (hsettled : Settled hooks turns) :
    InnerTurns .meant g hooks selected turns ending.mended := by
  cases h with
  | unready h hbad => exact .unready h.mended (mended_ne_well hbad)
  | looped h hloop =>
    exact .looped h.mended (hloop.mended (List.forall_mem_append.mp hsettled).2)

theorem RunTurns.mended {g : Nat} {selected : List (Member κ)}
    (h : RunTurns .ofFailure g hooks selected turns ending) (hsettled : Settled hooks turns) :
    RunTurns .meant g hooks selected turns ending.mended := by
  cases h with
  | idle h => exact .idle h
  | closed hne h hcut hafter =>
    have hinner := h.mended (List.forall_mem_append.mp hsettled).1
    rw [mended_of_not_cut hcut] at hinner
    rw [mended_followedBy hcut]
    exact .closed hne hinner hcut hafter.mended
  | cut hne h =>
    obtain ⟨turn, hmem, hbreaks⟩ := h.intact.exists_breaks
    have hnone := h.owesLast turn hmem hbreaks (hsettled turn hmem hbreaks)
    have hclosed := RunTurns.closed hne (h.mended hsettled) (mended_not_cut _) (.absent hnone)
    rwa [List.append_nil] at hclosed

theorem ofHook_meant_ne_cut (result : Except Panic (Except Failure Unit)) (panic : Panic) :
    Ending.ofHook .meant result ≠ .cut panic := by
  rw [← mended_ofHook]
  exact mended_not_cut _ panic

theorem HookTurns.ne_cut {hook : Option κ} {call : Call} {panic : Panic} :
    ¬HookTurns .meant hook call turns (.cut panic) := by
  intro h
  generalize hending : Ending.cut panic = ending at h
  cases h with
  | absent => cases hending
  | called _ result => exact ofHook_meant_ne_cut result panic hending.symm

theorem PhaseTurns.ne_cut {r : CheckRef} {steps : List (Phase × κ)} {panic : Panic} :
    ¬PhaseTurns .meant r steps turns (.cut panic) := by
  intro h
  generalize hending : Ending.cut panic = ending at h
  induction h with
  | finished => cases hending
  | failed phase callback rest result =>
    rw [← mended_ofPhase] at hending
    exact mended_not_cut _ panic hending.symm
  | next _ _ _ ih => exact ih hending

theorem CheckTurns.ne_cut {m : Member κ} {panic : Panic} :
    ¬CheckTurns .meant hooks m turns (.cut panic) := by
  intro h
  cases h with
  | unready h => exact h.ne_cut
  | ran _ _ _ hbody =>
    cases hbody with
    | ran _ _ h => exact h.ne_cut

theorem followedBy_ne_cut {ending last : Ending} {panic : Panic}
    (h : ∀ panic, ending ≠ .cut panic) (hlast : ∀ panic, last ≠ .cut panic) :
    ending.followedBy last ≠ .cut panic := by
  rw [← mended_of_not_cut hlast, ← mended_followedBy h]
  exact mended_not_cut _ panic

theorem IterationTurns.ne_cut {m : Member κ} (h : IterationTurns .meant hooks m turns ending) :
    ∀ panic, ending ≠ .cut panic := by
  intro panic
  cases h with
  | closed _ hcut hafter =>
    refine followedBy_ne_cut hcut ?_
    intro panic hlast
    exact HookTurns.ne_cut (hlast ▸ hafter)
  | cut h => exact absurd h CheckTurns.ne_cut

theorem LoopTurns.ne_cut {ms : List (Member κ)} (h : LoopTurns .meant hooks ms turns ending) :
    ∀ panic, ending ≠ .cut panic := by
  induction h with
  | finished => exact nofun
  | stopped => exact nofun
  | failed rest h => exact h.ne_cut
  | next _ _ ih => exact ih

theorem InnerTurns.ne_cut {g : Nat} {selected : List (Member κ)} {panic : Panic} :
    ¬InnerTurns .meant g hooks selected turns (.cut panic) := by
  intro h
  cases h with
  | unready h => exact h.ne_cut
  | looped _ hloop => exact hloop.ne_cut panic rfl

/-- At its end a part is owed at most the hook after all checks. -/
def EndsOwing (hooks : Hooks κ) (turns : List (Turn κ)) : Prop :=
  ∀ last, turns.getLast? = some last → last.owes hooks = true → hooks.afterAll.isSome

theorem EndsOwing.append {later : List (Turn κ)} (h : EndsOwing hooks turns)
    (hlater : EndsOwing hooks later) : EndsOwing hooks (turns ++ later) := by
  intro last hlast
  rw [List.getLast?_append] at hlast
  cases hend : later.getLast? with
  | none => exact h last (by rwa [hend] at hlast)
  | some other => exact hlater last (by rw [hend] at hlast ⊢; exact hlast)

theorem endsOwing_singleton {turn : Turn κ} (h : turn.owes hooks = true → hooks.afterAll.isSome) :
    EndsOwing hooks [turn] := by
  intro last hlast
  obtain rfl : turn = last := by simpa using hlast
  exact h

theorem IterationTurns.endsOwing {m : Member κ} (h : IterationTurns .meant hooks m turns ending) :
    EndsOwing hooks turns := by
  cases h with
  | cut h => exact absurd h CheckTurns.ne_cut
  | closed h _ hafter =>
    cases hafter with
    | called hhook result =>
      intro last hlast howes
      rw [List.getLast?_concat, Option.some.injEq] at hlast
      rw [← hlast] at howes
      exact howes
    | absent hhook =>
      rw [List.append_nil]
      intro last hlast howes
      rw [h.owesBoth last (List.mem_of_getLast? hlast), hhook] at howes
      simpa using howes

theorem LoopTurns.endsOwing {ms : List (Member κ)} (h : LoopTurns .meant hooks ms turns ending) :
    EndsOwing hooks turns := by
  have hlook : ∀ stopped, EndsOwing hooks [(.look stopped : Turn κ)] :=
    fun stopped => endsOwing_singleton nofun
  induction h with
  | finished => exact nofun
  | stopped => exact hlook true
  | failed rest h => exact (hlook false).append h.endsOwing
  | next h _ ih => exact (hlook false).append (h.endsOwing.append ih)

theorem InnerTurns.endsOwing {g : Nat} {selected : List (Member κ)}
    (h : InnerTurns .meant g hooks selected turns ending) : EndsOwing hooks turns := by
  have hhook : ∀ {turns : List (Turn κ)} {ending : Ending},
      HookTurns .meant hooks.beforeAll (.beforeAll g (selected.map Prod.fst)) turns ending →
      EndsOwing hooks turns := by
    intro turns ending h last hlast howes
    rw [Turn.owes, h.call last (List.mem_of_getLast? hlast)] at howes
    exact howes
  cases h with
  | unready h => exact hhook h
  | looped h hloop => exact (hhook h).append hloop.endsOwing

theorem RunTurns.owes_last {g : Nat} {selected : List (Member κ)} {last : Turn κ}
    (h : RunTurns .meant g hooks selected turns ending) (hlast : turns.getLast? = some last) :
    last.owes hooks = false := by
  cases h with
  | idle => cases hlast
  | cut _ h => exact absurd h InnerTurns.ne_cut
  | closed _ h _ hafter =>
    cases hafter with
    | called hhook result =>
      rw [List.getLast?_concat, Option.some.injEq] at hlast
      rw [← hlast]
      rfl
    | absent hhook =>
      rw [List.append_nil] at hlast
      have hends := h.endsOwing last hlast
      rw [hhook] at hends
      simpa using hends

/-- The order of calls is the one that is meant exactly where nothing breaks that a hook should
still have followed. -/
theorem RunTurns.meant_iff {g : Nat} {selected : List (Member κ)}
    (h : RunTurns .ofFailure g hooks selected turns ending) :
    (∃ ending, RunTurns .meant g hooks selected turns ending) ↔ Settled hooks turns := by
  constructor
  · rintro ⟨other, hmeant⟩ turn hmem hbreaks
    exact hmeant.owes_last (h.intact.last_of_breaks hmem hbreaks)
  · intro hsettled
    exact ⟨ending.mended, h.mended hsettled⟩

end Meaning

end Conformance.Group
