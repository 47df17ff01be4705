import Conformance.Proofs.Check.Callbacks
import Mathlib.Data.List.ReduceOption

/-!
The decision to skip a check. Its predicates are asked in the order in which they were added, up to
one that panics, which decides for a skip by itself. Where all of them answer, the mode of the check
says how many have to give a reason. An empty reason is a reason, and no predicates give none.
-/
namespace Conformance

open Conformance.Group (Trail)

variable {κ : Type} {b : Behaviour κ}

/-- Whether the answers of all predicates are enough for a skip. -/
def SkipMode.Suffice (answers : List (Option String)) : SkipMode → Prop
  | .any => ∃ answer ∈ answers, answer.isSome
  | .all => answers ≠ [] ∧ ∀ answer ∈ answers, answer.isSome

instance (mode : SkipMode) (answers : List (Option String)) :
    Decidable (mode.Suffice answers) :=
  match mode with
  | .any => inferInstanceAs (Decidable (∃ answer ∈ answers, answer.isSome))
  | .all => inferInstanceAs (Decidable (answers ≠ [] ∧ ∀ answer ∈ answers, answer.isSome))

namespace Running

/-- Predicates with the calls that are due, from the place `index` on. -/
def asking (r : CheckRef) (index : Nat) (predicates : List κ) : List (κ × Call) :=
  (predicates.zipIdx index).map fun p => (p.1, .skip r p.2)

def Answered (result : Except Panic (Option String)) : Prop := ∃ answer, result = .ok answer

/-- What a check logs about its predicate at a place that panicked. -/
def excusePanicLog (index : Nat) (panic : Panic) : String :=
  "Skip check function " ++ ("(idx=" ++ toString index ++ ")") ++ " panic'ed: " ++ panic.text

/-- The reason for which a check is skipped whose predicate at a place panicked. -/
def excusePanicReason (index : Nat) (panic : Panic) : String :=
  "skipCheckFn " ++ ("(idx=" ++ toString index ++ ")") ++ " panic:\n" ++ panic.text

/-- What the predicates that were asked decide, with the whole trail of asking them. -/
inductive Decided (c : Check κ) (asked : List (Called b.excuse)) :
    Trail κ → Option String → Prop
  | panicked {earlier : List (Called b.excuse)} {last : Called b.excuse} {r : CheckRef}
      {index : Nat} {panic : Panic} (hasked : asked = earlier ++ [last])
      (hcall : last.call = .skip r index) (hpanic : last.result = .error panic) :
      Decided c asked
        (asked.flatMap Called.trail ++
          [⟨.request (.write r .error (excusePanicLog index panic)), ()⟩])
        (some (excusePanicReason index panic))
  | answered {answers : List (Option String)} (hasked : asked.map Called.callback = c.skips)
      (hanswers : asked.map Called.result = answers.map .ok) :
      Decided c asked (asked.flatMap Called.trail)
        (if c.skipMode.Suffice answers then some (", ".intercalate answers.reduceOption) else none)

theorem suffice_any_iff (answers : List (Option String)) :
    SkipMode.any.Suffice answers ↔ answers.reduceOption ≠ [] := by
  rw [SkipMode.Suffice, List.reduceOption, Ne, List.filterMap_eq_nil_iff]
  simp [Option.isSome_iff_ne_none]

/-- Once every predicate gave a reason, there are reasons if there are predicates. -/
theorem suffice_all_iff (answers : List (Option String)) :
    SkipMode.all.Suffice answers ↔
      answers.reduceOption ≠ [] ∧ answers.reduceOption.length = answers.length := by
  rw [SkipMode.Suffice, List.reduceOption_length_eq_iff]
  refine and_congr_left fun hall => not_congr ?_
  rw [← List.length_eq_zero_iff, ← List.length_eq_zero_iff,
    List.reduceOption_length_eq_iff.mpr hall]

theorem combineExcuses_eq (mode : SkipMode) (answers : List (Option String)) :
    combineExcuses mode answers.length answers.reduceOption =
      if mode.Suffice answers then some (", ".intercalate answers.reduceOption) else none := by
  unfold combineExcuses
  cases mode with
  | any => simp only [suffice_any_iff, List.isEmpty_iff, ite_not]
  | all =>
    simp only [suffice_all_iff, List.isEmpty_iff]
    by_cases hnil : answers.reduceOption = []
    · simp [hnil]
    · simp [hnil]

/-- The predicates from a place on are asked up to one that panics, or all of them answer. -/
theorem goes_excusesFrom {r : CheckRef} {predicates : List κ} {index : Nat} {given : List String}
    {t : Trail κ} {x : Except Panic (List String ⊕ String)}
    (h : (excusesFrom b r index given predicates).Goes t x) :
    ∃ asked : List (Called b.excuse), InOrder Answered (asking r index predicates) asked ∧
      ((∃ answers : List (Option String), asked.map Called.result = answers.map .ok ∧
          t = asked.flatMap Called.trail ∧ x = .ok (.inl (given ++ answers.reduceOption))) ∨
        ∃ earlier last i panic, asked = earlier ++ [last] ∧ last.call = .skip r i ∧
          last.result = .error panic ∧
          t = asked.flatMap Called.trail ++
            [⟨.request (.write r .error (excusePanicLog i panic)), ()⟩] ∧
          x = .ok (.inr (excusePanicReason i panic))) := by
  induction predicates generalizing index given t with
  | nil =>
    obtain ⟨rfl, rfl⟩ := Prog.goes_done h
    exact ⟨[], .finished, .inl ⟨[], rfl, rfl, by rw [List.reduceOption_nil, List.append_nil]⟩⟩
  | cons predicate rest ih =>
    simp only [excusesFrom, Prog.bind_eq, Prog.pure_eq] at h
    obtain ⟨a, u, rfl, hcall, rfl, hrest⟩ := Called.of_goes_call h
    have hdue : asking r index (a.callback :: rest) =
        (a.callback, a.call) :: asking r (index + 1) rest := by
      rw [hcall]
      rfl
    rw [hdue]
    cases hresult : a.result with
    | ok answer =>
      have hgo : (excusesFrom b r (index + 1) (given ++ answer.toList) rest).Goes u x := by
        rw [hresult] at hrest
        cases answer with
        | none => rwa [Option.toList_none, List.append_nil]
        | some reason => exact hrest
      obtain ⟨asked, horder, hend⟩ := ih hgo
      refine ⟨a :: asked, .next a ⟨answer, hresult⟩ horder, ?_⟩
      rcases hend with ⟨answers, hanswers, rfl, rfl⟩ | ⟨earlier, last, i, panic, rfl, hlast⟩
      · refine .inl ⟨answer :: answers, ?_, rfl, ?_⟩
        · rw [List.map_cons, List.map_cons, hresult, hanswers]
        · rw [List.append_assoc, ← List.reduceOption_singleton, ← List.reduceOption_append]
          rfl
      · obtain ⟨hskip, hpanic, rfl, rfl⟩ := hlast
        exact .inr ⟨a :: earlier, last, i, panic, rfl, hskip, hpanic, by simp, rfl⟩
    | error panic =>
      rw [hresult] at hrest
      obtain ⟨-, u, rfl, hdone⟩ := Prog.goes_request_bind hrest
      obtain ⟨rfl, rfl⟩ := Prog.goes_done hdone
      have hstop : ¬Answered a.result := by
        rintro ⟨answer, hanswer⟩
        rw [hresult] at hanswer
        cases hanswer
      refine ⟨[a], .stopped a _ hstop, .inr ⟨[], a, index, panic, rfl, hcall, hresult, ?_, rfl⟩⟩
      rw [List.flatMap_singleton]
      rfl

theorem map_callback_asking (r : CheckRef) (index : Nat) (predicates : List κ) :
    (asking r index predicates).map Prod.fst = predicates := by
  rw [asking, List.map_map]
  exact List.zipIdx_map_fst index predicates

/-- Where all predicates that were asked answered, none was left out. -/
theorem map_callback_of_answers {r : CheckRef} {predicates : List κ}
    {asked : List (Called b.excuse)} {answers : List (Option String)}
    (horder : InOrder Answered (asking r 0 predicates) asked)
    (hanswers : asked.map Called.result = answers.map .ok) :
    asked.map Called.callback = predicates := by
  have hall : ∀ a ∈ asked, Answered a.result := by
    intro a ha
    have hmem : a.result ∈ answers.map .ok := hanswers ▸ List.mem_map_of_mem ha
    obtain ⟨answer, -, hanswer⟩ := List.mem_map.mp hmem
    exact ⟨answer, hanswer.symm⟩
  rcases horder.cases_end with ⟨-, hdue⟩ | ⟨earlier, last, rfl, -, hlast⟩
  · rw [← map_callback_asking r 0 predicates, ← hdue, List.map_map]
    rfl
  · exact absurd (hall last (by simp)) hlast

theorem goes_skipDecision {r : CheckRef} {c : Check κ} {t : Trail κ}
    {x : Except Panic (Option String)} (h : (skipDecision b r c).Goes t x) :
    ∃ (asked : List (Called b.excuse)) (decision : Option String),
      InOrder Answered (asking r 0 c.skips) asked ∧ Decided c asked t decision ∧
        x = .ok decision := by
  simp only [skipDecision, Prog.bind_eq, Prog.pure_eq] at h
  rcases Prog.goes_bind h with ⟨t, u, given, rfl, hasked, hrest⟩ | ⟨q, -, hasked⟩
  · obtain ⟨asked, horder, hend⟩ := goes_excusesFrom hasked
    refine ⟨asked, ?_⟩
    rcases hend with ⟨answers, hanswers, rfl, hx⟩ | ⟨earlier, last, i, panic, hlast⟩
    · cases hx
      obtain ⟨rfl, rfl⟩ := Prog.goes_done hrest
      have hcallbacks := map_callback_of_answers horder hanswers
      have hlength : c.skips.length = answers.length := by
        rw [← hcallbacks, List.length_map, ← List.length_map, hanswers, List.length_map]
      refine ⟨_, horder, ?_, rfl⟩
      rw [List.append_nil, List.nil_append, hlength, combineExcuses_eq]
      exact .answered hcallbacks hanswers
    · obtain ⟨hearlier, hcall, hpanic, rfl, hx⟩ := hlast
      cases hx
      obtain ⟨rfl, rfl⟩ := Prog.goes_done hrest
      refine ⟨_, horder, ?_, rfl⟩
      rw [List.append_nil]
      exact .panicked hearlier hcall hpanic
  · obtain ⟨asked, -, hend⟩ := goes_excusesFrom hasked
    rcases hend with ⟨answers, -, -, hx⟩ | ⟨earlier, last, i, panic, -, -, -, -, hx⟩ <;> cases hx

end Running

/-- A check that is to be skipped is logged and judged so, and is not run. -/
theorem Group.goes_runUnlessExcused {s : Setting κ} {m : Member κ} {remaining : List (Member κ)}
    {t : Trail κ} {x : Except Panic (Option GroupError)}
    (h : (runUnlessExcused s m remaining).Goes t x) :
    ∃ t₁ t₂ decision, t = t₁ ++ t₂ ∧
      (Running.skipDecision s.behaviour m.1 m.2).Goes t₁ (.ok decision) ∧
      (∀ reason, decision = some reason → x = .ok none ∧
        t₂ = [⟨.request (.write m.1 .info
          ("Skipping check " ++ m.2.id ++ ", reason: " ++ reason)), ()⟩,
          ⟨.request (.judge m.1 (.skipped reason)), ()⟩]) ∧
      (decision = none → ∃ granted u, t₂ = granted ++ u ∧
        (∀ a ∈ granted, ∃ handle, a.1 = .grant m.1 handle) ∧
        (runCheck s m remaining).Goes u x) := by
  simp only [runUnlessExcused, Prog.bind_eq, Prog.pure_eq] at h
  rcases Prog.goes_bind h with ⟨t₁, t₂, decision, rfl, hdecision, hrest⟩ | ⟨q, -, hdecision⟩
  · refine ⟨t₁, t₂, decision, rfl, hdecision, ?_, ?_⟩
    · rintro reason rfl
      obtain ⟨-, u, rfl, hlogged⟩ := Prog.goes_request_bind hrest
      obtain ⟨-, v, rfl, hjudged⟩ := Prog.goes_request_bind hlogged
      obtain ⟨rfl, rfl⟩ := Prog.goes_done hjudged
      exact ⟨rfl, rfl⟩
    · rintro rfl
      simp only at hrest
      cases hhandle : s.handle with
      | none =>
        rw [hhandle] at hrest
        exact ⟨[], t₂, rfl, List.forall_mem_nil _, hrest⟩
      | some handle =>
        rw [hhandle] at hrest
        obtain ⟨answer, u, rfl, hrun⟩ := Prog.goes_request_bind hrest
        exact ⟨[⟨.grant m.1 handle, answer⟩], u, rfl,
          List.forall_mem_singleton.mpr ⟨handle, rfl⟩, hrun⟩
  · obtain ⟨asked, decision, -, -, hx⟩ := Running.goes_skipDecision hdecision
    cases hx

/-- For every check, whatever its predicates answer: they are asked in order up to one that panics,
and decide as the mode of the check says unless one panics. In a group run, a check that is to be
skipped is judged so for just that reason, and is not run. -/
theorem predicates_decide_skip (b : Behaviour κ) (r : CheckRef) (c : Check κ) :
    (∀ t x, (Running.skipDecision b r c).Goes t x →
      ∃ (asked : List (Called b.excuse)) (decision : Option String),
        InOrder Running.Answered (Running.asking r 0 c.skips) asked ∧
          Running.Decided c asked t decision ∧ x = .ok decision) ∧
    ∀ (s : Group.Setting κ) (remaining : List (Group.Member κ)) t x, s.behaviour = b →
      (Group.runUnlessExcused s (r, c) remaining).Goes t x →
      ∃ t₁ t₂ decision, t = t₁ ++ t₂ ∧ (Running.skipDecision b r c).Goes t₁ (.ok decision) ∧
        (∀ reason, decision = some reason → x = .ok none ∧
          t₂ = [⟨.request (.write r .info
            ("Skipping check " ++ c.id ++ ", reason: " ++ reason)), ()⟩,
            ⟨.request (.judge r (.skipped reason)), ()⟩]) ∧
        (decision = none → ∃ granted u, t₂ = granted ++ u ∧
          (∀ a ∈ granted, ∃ handle, a.1 = .grant r handle) ∧
          (Group.runCheck s (r, c) remaining).Goes u x) := by
  refine ⟨fun t x h => Running.goes_skipDecision h, ?_⟩
  rintro s remaining t x rfl h
  exact Group.goes_runUnlessExcused h

theorem predicates_decide_skip_panicked :
    let b : Behaviour (Except Panic (Option String)) :=
      ⟨fun _ _ => .done (.ok ()), fun answer _ => match answer with
        | .ok answer => .done answer
        | .error panic => .panic panic⟩
    let r : CheckRef := ⟨0, 0⟩
    let panic : Panic := ⟨"boom", "main"⟩
    let c := { Check.new "a" ["common"] with
      skips := [.ok (some ""), .error panic, .ok none], skipMode := .all }
    let reason := Running.excusePanicReason 1 panic
    let asking : Trail _ := [⟨.enter (.skip r 0), ()⟩, ⟨.enter (.skip r 1), ()⟩,
      ⟨.request (.write r .error (Running.excusePanicLog 1 panic)), ()⟩]
    let skipping : Trail _ := [⟨.request (.write r .info
      ("Skipping check " ++ c.id ++ ", reason: " ++ reason)), ()⟩,
      ⟨.request (.judge r (.skipped reason)), ()⟩]
    (∃ asked : List (Called b.excuse), InOrder Running.Answered (Running.asking r 0 c.skips) asked ∧
      Running.Decided c asked asking (some reason)) ∧
    ∃ t₁ t₂ decision, asking ++ skipping = t₁ ++ t₂ ∧
      (Running.skipDecision b r c).Goes t₁ (.ok decision) := by
  intro b r panic c reason asking skipping
  obtain ⟨hdecision, hskip⟩ := predicates_decide_skip b r c
  have hgoes : (Running.skipDecision b r c).Goes asking (.ok (some reason)) :=
    .ask (.ask (.ask (.done _)))
  have hskipped : (Group.runUnlessExcused ⟨b, 0, "g", .none, 0, none⟩ (r, c) []).Goes
      (asking ++ skipping) (.ok none) :=
    .ask (.ask (.ask (.ask (.ask (.done _)))))
  obtain ⟨asked, decision, horder, hdecided, hx⟩ := hdecision _ _ hgoes
  cases hx
  obtain ⟨t₁, t₂, decision, ht, hasked, -⟩ := hskip _ [] _ _ rfl hskipped
  exact ⟨⟨asked, horder, hdecided⟩, t₁, t₂, decision, ht, hasked⟩

end Conformance
