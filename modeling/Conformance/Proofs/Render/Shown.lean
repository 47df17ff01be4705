import Conformance.Proofs.Render.Junit
import Conformance.Proofs.Xml.Unambiguous
import Mathlib.Data.List.Forall2

/-!
What the JUnit document of a report says of its checks can be read off its text: escaping loses
nothing, and the document is the only one with this text. Two reports of one text agree in every id
and every reason that they show.
-/
namespace Conformance.Render.Junit

open Xml

/-! ### Text between the elements -/

theorem allSpaced_block {elements : List Node} (h : ∀ e ∈ elements, e.IsSpaced)
    (indentation : Nat) : Node.AllSpaced (block indentation elements) := by
  induction elements with
  | nil => exact trivial
  | cons e elements ih =>
    obtain ⟨he, helements⟩ := List.forall_mem_cons.mp h
    exact ⟨he, ih helements⟩

theorem block_inj {indentation : Nat} {elements elements' : List Node}
    (h : block indentation elements = block indentation elements') : elements = elements' := by
  induction elements generalizing elements' with
  | nil =>
    cases elements' with
    | nil => rfl
    | cons e elements' => cases (List.cons.inj h).2
  | cons e elements ih =>
    cases elements' with
    | nil => cases (List.cons.inj h).2
    | cons e' elements' =>
      obtain ⟨rfl, hrest⟩ := List.cons.inj (List.cons.inj h).2
      rw [ih hrest]

theorem isSpaced_outcome {r : Record} {outcome : Node} (h : outcome? r = some outcome) :
    outcome.IsSpaced := by
  unfold outcome? at h
  split at h <;> cases h <;> trivial

theorem isSpaced_testCase (group id : String) (r : Record) : (testCase group id r).IsSpaced := by
  unfold testCase
  cases h : outcome? r with
  | none => exact trivial
  | some outcome => exact ⟨isSpaced_outcome h, trivial⟩

/-! ### What is shown -/

/-- What a report says of a check. That one passed needs no reason. -/
structure Shown where
  id : String
  state : CheckState
  reason? : Option String
  deriving DecidableEq

def shownCase (c : String × Record) : Shown :=
  ⟨c.1, c.2.state, if c.2.state = .passed then none else some c.2.reason⟩

/-- The recorded checks of a group with their ids. -/
def recorded (results : Results) (g : GroupReport) : List (String × Record) :=
  g.checkIds.filterMap fun id => (results.get? id).map (id, ·)

/-- The groups by name, and of each the recorded checks. -/
def shown (r : RunReport) : List (String × List Shown) :=
  r.groups.map fun g => (g.name, (recorded r.results g).map shownCase)

theorem suite_eq (results : Results) (g : GroupReport) :
    suite results g = .element "testsuite" (("name", g.name) :: counts g.summary)
      (block 2 ((recorded results g).map fun c => testCase g.name c.1 c.2)) := by
  rw [suite, recorded, List.map_filterMap]
  simp only [Option.map_map, Function.comp_def]

theorem isSpaced_suite (results : Results) (g : GroupReport) : (suite results g).IsSpaced := by
  rw [suite_eq]
  refine allSpaced_block (fun e he => ?_) 2
  obtain ⟨c, -, rfl⟩ := List.mem_map.mp he
  exact isSpaced_testCase g.name c.1 c.2

theorem isSpaced_document (r : RunReport) : (document r).IsSpaced := by
  refine allSpaced_block (fun e he => ?_) 0
  obtain ⟨g, -, rfl⟩ := List.mem_map.mp he
  exact isSpaced_suite r.results g

theorem outcome?_inj {r r' : Record} (h : outcome? r = outcome? r') :
    r.state = r'.state ∧ (r.state ≠ .passed → r.reason = r'.reason) := by
  unfold outcome? at h
  cases hs : r.state <;> cases hs' : r'.state <;> simp [hs, hs'] at h ⊢ <;> assumption

theorem testCase_inj {group group' id id' : String} {r r' : Record}
    (h : testCase group id r = testCase group' id' r') : id = id' ∧ outcome? r = outcome? r' := by
  unfold testCase at h
  cases ho : outcome? r <;> cases ho' : outcome? r' <;> simp [ho, ho'] at h <;> simp [h]

theorem shownCase_eq_of_testCase_eq {group group' : String} {c d : String × Record}
    (h : testCase group c.1 c.2 = testCase group' d.1 d.2) : shownCase c = shownCase d := by
  obtain ⟨hid, houtcome⟩ := testCase_inj h
  obtain ⟨hstate, hreason⟩ := outcome?_inj houtcome
  unfold shownCase
  rw [hid, ← hstate]
  split
  · rfl
  · next hfailed => rw [hreason hfailed]

/-- Lists whose elements agree pairwise under one pair of functions agree under another. -/
theorem map_eq_map_of_imp {α β γ δ : Type} {f : α → γ} {f' : β → γ} {g : α → δ} {g' : β → δ}
    (himp : ∀ a b, f a = f' b → g a = g' b) {as : List α} {bs : List β}
    (h : as.map f = bs.map f') : as.map g = bs.map g' := by
  rw [← List.forall₂_eq_eq_eq, List.forall₂_map_left_iff, List.forall₂_map_right_iff] at h ⊢
  exact h.imp himp

theorem shown_eq_of_suite_eq {results results' : Results} {g g' : GroupReport}
    (h : suite results g = suite results' g') :
    (g.name, (recorded results g).map shownCase) =
      (g'.name, (recorded results' g').map shownCase) := by
  rw [suite_eq, suite_eq] at h
  obtain ⟨-, hattributes, hblock⟩ := Node.element.inj h
  have hname : g.name = g'.name := congrArg Prod.snd (List.cons.inj hattributes).1
  have hcases := map_eq_map_of_imp (fun _ _ => shownCase_eq_of_testCase_eq) (block_inj hblock)
  rw [hname, hcases]

theorem shown_eq_of_document_eq {r r' : RunReport} (h : document r = document r') :
    shown r = shown r' :=
  map_eq_map_of_imp (fun _ _ => shown_eq_of_suite_eq) (block_inj (Node.element.inj h).2.2)

theorem document_inj {r r' : RunReport} (h : render r = render r') : document r = document r' :=
  Node.document_inj (isProper_document r) (isSpaced_document r) (isProper_document r')
    (isSpaced_document r') h

/-! ### Nothing is lost -/

/-- Escaped text has no markup but references to the predefined entities, and these give the text
back. So texts that differ stay different, and reports of one text show the same groups, ids, states
and reasons. -/
theorem escaping_is_reversible :
    (∀ s, (∀ c ∈ delimiters, c ∉ (escape s).toList) ∧
      (∀ before after, (escape s).toList = before ++ '&' :: after →
        ∃ name ∈ references, name.toList <+: '&' :: after) ∧
      unescape (escape s) = s) ∧
    (∀ s t, escape (s ++ t) = escape s ++ escape t ∧ (escape s = escape t → s = t)) ∧
    ∀ r r', render r = render r' → shown r = shown r' := by
  have htext (s : String) : (escape s).toList = escapeChars s.toList := String.toList_ofList
  refine ⟨fun s => ⟨fun c hc => ?_, fun before after hsplit => ?_, unescape_escape s⟩,
    fun s t => ⟨escape_append s t, escape_inj⟩, fun r r' h => ?_⟩
  · rw [htext]
    exact not_mem_escapeChars hc s.toList
  · rw [htext] at hsplit
    exact (characterData_escapeChars s.toList (.inl rfl)).begins_reference hsplit
  · exact shown_eq_of_document_eq (document_inj h)

/-- A report of one failed check, with the given label filter and reason. -/
def reportOf (labelFilter reason : String) : RunReport where
  labelFilter := labelFilter
  startedAt := default
  durationMs := 0
  abortReason := none
  errors := []
  failedChecks := 1
  groups := [⟨"limits", ["tags"], .ofStates [.failed]⟩]
  results := Keyed.ofList [("tags",
    { testId := ⟨"tags", "limits", ""⟩, state := .failed, startedAt := none, endedAt := none,
      duration := 0, reason := reason, output := "", details := "", categories := .none,
      info := ⟨"", "", "", ""⟩ })]

/-- A reason that looks escaped already is kept apart from the one that it would be the escaping of,
and reports that differ only in what is not shown have one document. -/
theorem escaping_is_reversible_entity :
    (∃ name ∈ references, name.toList <+: ['&', 'a', 'm', 'p', ';', 'l', 't', ';']) ∧
      escape "&lt;" ≠ escape "<" ∧
      render (reportOf "common" "&lt;") ≠ render (reportOf "common" "<") ∧
      shown (reportOf "common" "&lt;") = shown (reportOf "telco" "&lt;") := by
  obtain ⟨htext, hpairs, hreports⟩ := escaping_is_reversible
  refine ⟨(htext "&lt;").2.1 [] ['a', 'm', 'p', ';', 'l', 't', ';'] (by decide),
    fun h => absurd ((hpairs "&lt;" "<").2 h) (by decide), fun h => ?_, hreports _ _ rfl⟩
  have hshown : shown (reportOf "common" "&lt;") ≠ shown (reportOf "common" "<") := by decide
  exact hshown (hreports _ _ h)

end Conformance.Render.Junit
