import Conformance.Proofs.Xml.Grammar
import Conformance.Render.Junit

/-!
JUnit documents of reports as XML. Their structure is right for every report: one root, every
element closed, every attribute in quotes. Escaping takes care of markup only, so a character that
XML does not allow at all goes into the document as it is, and the document is well-formed just if
the report shows no such character.
-/
namespace Conformance.Render.Junit

open Xml

/-! ### Structure -/

theorem isProper_newline (spaces : Nat) : (newline spaces).IsProper := by
  rw [newline, Node.IsProper]
  trivial

theorem allProper_block {elements : List Node} (h : ∀ e ∈ elements, e.IsProper)
    (indentation : Nat) : Node.AllProper (block indentation elements) := by
  refine Node.allProper_iff.mpr fun node hnode => ?_
  rcases List.mem_append.mp hnode with hmem | hmem
  · obtain ⟨e, he, hmem⟩ := List.mem_flatMap.mp hmem
    rcases List.mem_cons.mp hmem with rfl | hmem
    · exact isProper_newline _
    · obtain rfl := List.mem_singleton.mp hmem
      exact h _ he
  · obtain rfl := List.mem_singleton.mp hmem
    exact isProper_newline _

theorem isProper_outcome {r : Record} {outcome : Node} (h : outcome? r = some outcome) :
    outcome.IsProper := by
  have hmessage : Node.ProperTag "skipped" ["message"] := by decide
  have herror : Node.ProperTag "error" ["type", "message"] := by decide
  have hfailure : Node.ProperTag "failure" ["message"] := by decide
  unfold outcome? at h
  split at h
  · cases h
  · cases h
    exact ⟨hfailure, trivial, trivial⟩
  · cases h
    exact hmessage
  · cases h
    exact herror
  · cases h
    exact herror

theorem isProper_testCase (group id : String) (r : Record) : (testCase group id r).IsProper := by
  have htag : Node.ProperTag "testcase" ["name", "classname", "time"] := by decide
  unfold testCase
  cases h : outcome? r with
  | none => exact htag
  | some outcome =>
    exact ⟨htag, isProper_newline 6, isProper_outcome h, isProper_newline 4, trivial⟩

theorem isProper_suite (results : Results) (g : GroupReport) : (suite results g).IsProper := by
  have htag : Node.ProperTag "testsuite" ["name", "tests", "failures", "errors", "skipped"] := by
    decide
  refine ⟨htag, allProper_block (fun e he => ?_) 2⟩
  obtain ⟨id, -, hid⟩ := List.mem_filterMap.mp he
  obtain ⟨r, -, rfl⟩ := Option.map_eq_some_iff.mp hid
  exact isProper_testCase g.name id r

theorem isProper_document (r : RunReport) : (document r).IsProper := by
  have htag : Node.ProperTag "testsuites" ["tests", "failures", "errors", "skipped", "time"] := by
    decide
  refine ⟨htag, allProper_block (fun e he => ?_) 0⟩
  obtain ⟨g, -, rfl⟩ := List.mem_map.mp he
  exact isProper_suite r.results g

/-! ### Characters -/

theorem legible_toDigits (n : Nat) : Legible (Nat.toDigits 10 n) := by
  intro c hc
  have hdigit := Nat.isDigit_of_mem_toDigits (by decide) (by decide) hc
  simp only [Char.isDigit, Bool.and_eq_true, decide_eq_true_iff, ge_iff_le,
    UInt32.le_iff_toNat_le] at hdigit
  exact isChar_of_mem_range hdigit (by decide) (by decide)

theorem legible_toString_nat (n : Nat) : Legible (toString n).toList := by
  rw [Nat.toString_eq_ofList_toDigits, String.toList_ofList]
  exact legible_toDigits n

theorem legible_toString_int (n : Int) : Legible (toString n).toList := by
  cases n with
  | ofNat n => exact legible_toString_nat n
  | negSucc n =>
    change Legible ("-" ++ toString (n + 1)).toList
    rw [String.toList_append, legible_append]
    exact ⟨by decide, legible_toString_nat (n + 1)⟩

theorem legible_thousandths (places n : Nat) : Legible (Number.thousandths places n).toList := by
  simp only [Number.thousandths, Number.Quotient.fixed, Time.padded, String.toList_append,
    legible_append, String.toList_ofList]
  refine ⟨⟨legible_toString_nat _, by decide⟩, fun c hc => ?_, legible_toDigits _⟩
  rw [List.eq_of_mem_replicate hc]
  decide

theorem isLegible_newline (spaces : Nat) : (newline spaces).IsLegible := by
  change Legible ("\n" ++ String.ofList (List.replicate spaces ' ')).toList
  rw [String.toList_append, legible_append]
  refine ⟨by decide, fun c hc => ?_⟩
  rw [String.toList_ofList] at hc
  obtain rfl : c = ' ' := List.eq_of_mem_replicate hc
  decide

theorem allLegible_block {elements : List Node} {indentation : Nat} :
    Node.AllLegible (block indentation elements) ↔ ∀ e ∈ elements, e.IsLegible := by
  rw [Node.allLegible_iff]
  constructor
  · intro h e he
    exact h e (List.mem_append_left _
      (List.mem_flatMap.mpr ⟨e, he, List.mem_cons_of_mem _ List.mem_cons_self⟩))
  · intro h node hnode
    rcases List.mem_append.mp hnode with hmem | hmem
    · obtain ⟨e, he, hmem⟩ := List.mem_flatMap.mp hmem
      rcases List.mem_cons.mp hmem with rfl | hmem
      · exact isLegible_newline _
      · obtain rfl := List.mem_singleton.mp hmem
        exact h _ he
    · obtain rfl := List.mem_singleton.mp hmem
      exact isLegible_newline _

theorem legible_counts (s : Summary) : ∀ a ∈ counts s, Legible a.2.toList := by
  have hcount (n : UInt32) : Legible (toString n).toList := legible_toString_nat n.toNat
  simp only [counts, List.forall_mem_cons]
  exact ⟨hcount _, hcount _, hcount _, hcount _, nofun⟩

/-- The outcome of a check that passed is nothing, that of any other shows the reason. -/
theorem outcome?_eq_none_iff {r : Record} : outcome? r = none ↔ r.state = .passed := by
  unfold outcome?
  cases r.state <;> simp

theorem isLegible_outcome {r : Record} {outcome : Node} (h : outcome? r = some outcome) :
    outcome.IsLegible ↔ Legible r.reason.toList := by
  have hfailed : Legible "check failed".toList := by decide
  have herror : Legible "error".toList := by decide
  have haborted : Legible "aborted".toList := by decide
  unfold outcome? at h
  split at h
  · cases h
  · cases h
    simp only [Node.IsLegible, Node.AllLegible, List.forall_mem_singleton, hfailed, true_and,
      and_true]
  · cases h
    simp only [Node.IsLegible, List.forall_mem_singleton]
  · cases h
    simp only [Node.IsLegible, List.forall_mem_cons, herror, true_and]
    exact and_iff_left nofun
  · cases h
    simp only [Node.IsLegible, List.forall_mem_cons, haborted, true_and]
    exact and_iff_left nofun

theorem isLegible_testCase {group id : String} {r : Record} :
    (testCase group id r).IsLegible ↔
      Legible id.toList ∧ Legible group.toList ∧
        (r.state ≠ .passed → Legible r.reason.toList) := by
  have hclass : Legible ("checkrun." ++ group).toList ↔ Legible group.toList := by
    rw [String.toList_append, legible_append]
    exact and_iff_right (by decide)
  have htime : Legible (toString r.duration).toList := legible_toString_int r.duration.toInt
  have hattributes : (∀ a ∈ [("name", id), ("classname", "checkrun." ++ group),
      ("time", toString r.duration)], Legible a.2.toList) ↔
        Legible id.toList ∧ Legible group.toList := by
    simp only [List.forall_mem_cons, hclass, htime, true_and]
    exact and_congr_right fun _ => and_iff_left nofun
  unfold testCase
  cases h : outcome? r with
  | none =>
    have hpassed := outcome?_eq_none_iff.mp h
    simp only [Node.IsLegible, hattributes, hpassed, ne_eq, not_true_eq_false, false_imp_iff,
      and_true]
  | some outcome =>
    have hshown : r.state ≠ .passed := fun hpassed => by
      rw [outcome?_eq_none_iff.mpr hpassed] at h
      cases h
    simp only [Node.IsLegible, Node.AllLegible, hattributes, isLegible_newline,
      isLegible_outcome h, hshown, ne_eq, not_false_eq_true, true_imp_iff, true_and, and_true,
      and_assoc]

theorem isLegible_suite {results : Results} {g : GroupReport} :
    (suite results g).IsLegible ↔ Legible g.name.toList ∧
      ∀ id ∈ g.checkIds, ∀ record, results.get? id = some record →
        Legible id.toList ∧ (record.state ≠ .passed → Legible record.reason.toList) := by
  have hcases : (∀ e ∈ g.checkIds.filterMap fun id => (results.get? id).map (testCase g.name id),
      e.IsLegible) ↔ ∀ id ∈ g.checkIds, ∀ record, results.get? id = some record →
        (testCase g.name id record).IsLegible := by
    constructor
    · intro h id hid record hrecord
      refine h _ (List.mem_filterMap.mpr ⟨id, hid, ?_⟩)
      rw [hrecord, Option.map_some]
    · intro h e he
      obtain ⟨id, hid, hshown⟩ := List.mem_filterMap.mp he
      obtain ⟨record, hrecord, rfl⟩ := Option.map_eq_some_iff.mp hshown
      exact h id hid record hrecord
  rw [suite, Node.IsLegible, List.forall_mem_cons, allLegible_block, hcases,
    iff_true_intro (legible_counts g.summary), and_true]
  refine and_congr_right fun hname => forall₂_congr fun id _ => forall₂_congr fun record _ => ?_
  rw [isLegible_testCase, iff_true_intro hname, true_and]

/-! ### Well-formed reports -/

/-- No text that the document of a report shows has a character that XML does not allow: neither the
name of a group, nor the id of a recorded check, nor the reason of one that did not pass. -/
def ShowsLegibly (r : RunReport) : Prop :=
  ∀ g ∈ r.groups, Legible g.name.toList ∧
    ∀ id ∈ g.checkIds, ∀ record, r.results.get? id = some record →
      Legible id.toList ∧ (record.state ≠ .passed → Legible record.reason.toList)

theorem isLegible_document {r : RunReport} : (document r).IsLegible ↔ ShowsLegibly r := by
  have hattributes : ∀ a ∈ counts r.summary ++
      [("time", Number.thousandths 3 r.durationMs.toNat)], Legible a.2.toList :=
    List.forall_mem_append.mpr ⟨legible_counts r.summary,
      List.forall_mem_singleton.mpr (legible_thousandths 3 r.durationMs.toNat)⟩
  rw [document, Node.IsLegible, iff_true_intro hattributes, true_and, allLegible_block,
    List.forall_mem_map]
  exact forall₂_congr fun g _ => isLegible_suite

/-- A report becomes a document with the one root `testsuites` in which every element is closed and
every attribute quoted, and this document is well-formed just if it shows no character that XML
does not allow. -/
theorem wellFormed_render_iff (r : RunReport) :
    IsDocument "testsuites" (render r).toList ∧
      (WellFormed "testsuites" (render r) ↔ ShowsLegibly r) := by
  have hdocument : IsDocument "testsuites" (render r).toList :=
    Node.isDocument_document (isProper_document r)
  have hlegible : Legible (render r).toList ↔ ShowsLegibly r :=
    (Node.legible_document (isProper_document r)).trans isLegible_document
  exact ⟨hdocument, fun h => hlegible.mp h.legible, fun h => ⟨hdocument, hlegible.mpr h⟩⟩

end Conformance.Render.Junit
