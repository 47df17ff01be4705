import Conformance.Proofs.Keyed
import Conformance.Report.Basic
import Mathlib.Algebra.GroupWithZero.Nat
import Mathlib.Data.List.Perm.Basic

/-!
Summaries as counts of states, and counts over the records. Every counter of a summary adds up one
for each check in its state, so a summary does not depend on the order of the checks, and summaries
of groups are merged to that of all their checks together, whatever the groups and their order are.
-/
namespace Conformance

namespace Summary

/-- The counter of the checks in a state. -/
def counter (s : Summary) : CheckState → UInt32
  | .passed => s.passed
  | .failed => s.failed
  | .skipped => s.skipped
  | .error => s.error
  | .aborted => s.aborted

theorem ext_counter {s t : Summary} (hcounter : ∀ state, s.counter state = t.counter state)
    (htotal : s.total = t.total) : s = t := by
  obtain ⟨passed, failed, skipped, error, aborted, total⟩ := s
  obtain rfl : passed = t.passed := hcounter .passed
  obtain rfl : failed = t.failed := hcounter .failed
  obtain rfl : skipped = t.skipped := hcounter .skipped
  obtain rfl : error = t.error := hcounter .error
  obtain rfl : aborted = t.aborted := hcounter .aborted
  obtain rfl : total = t.total := htotal
  rfl

/-! ### Counting -/

theorem counter_add (s : Summary) (state other : CheckState) : (s.add state).counter other =
    s.counter other + .ofNat (if state = other then 1 else 0) := by
  cases state <;> cases other <;> simp [add, counter]

theorem total_add (s : Summary) (state : CheckState) : (s.add state).total = s.total + 1 := by
  cases state <;> rfl

theorem counter_foldl_add (states : List CheckState) (s : Summary) (state : CheckState) :
    (states.foldl add s).counter state = s.counter state + .ofNat (states.count state) := by
  induction states generalizing s with
  | nil => simp
  | cons first rest ih =>
    rw [List.foldl_cons, ih, counter_add, List.count_cons, UInt32.add_assoc, ← UInt32.ofNat_add,
      Nat.add_comm (List.count _ rest)]
    simp only [beq_iff_eq]

theorem total_foldl_add (states : List CheckState) (s : Summary) :
    (states.foldl add s).total = s.total + .ofNat states.length := by
  induction states generalizing s with
  | nil => simp
  | cons first rest ih =>
    rw [List.foldl_cons, ih, total_add, List.length_cons, Nat.add_comm, UInt32.ofNat_add,
      UInt32.add_assoc]
    rfl

theorem counter_ofStates (states : List CheckState) (state : CheckState) :
    (ofStates states).counter state = .ofNat (states.count state) := by
  rw [ofStates, counter_foldl_add]
  cases state <;> exact UInt32.zero_add _

theorem total_ofStates (states : List CheckState) :
    (ofStates states).total = .ofNat states.length := by
  rw [ofStates, total_foldl_add]
  exact UInt32.zero_add _

/-- Every check is in one of the states. -/
theorem sum_count (states : List CheckState) :
    (CheckState.all.map states.count).sum = states.length := by
  induction states with
  | nil => rfl
  | cons first rest ih =>
    rw [List.length_cons, ← ih]
    cases first <;> simp [CheckState.all, List.count_cons] <;> omega

/-- The summary counts these checks, without any overflow. -/
structure Counts (s : Summary) (states : List CheckState) : Prop where
  counter : ∀ state, (s.counter state).toNat = states.count state
  total : s.total.toNat = states.length
  sum : (CheckState.all.map fun state => (s.counter state).toNat).sum = s.total.toNat

theorem counts_ofStates {states : List CheckState} (h : states.length < 2 ^ 32) :
    (ofStates states).Counts states := by
  have hcounter (state : CheckState) :
      ((ofStates states).counter state).toNat = states.count state := by
    rw [counter_ofStates, UInt32.toNat_ofNat',
      Nat.mod_eq_of_lt (Nat.lt_of_le_of_lt List.count_le_length h)]
  have htotal : (ofStates states).total.toNat = states.length := by
    rw [total_ofStates, UInt32.toNat_ofNat', Nat.mod_eq_of_lt h]
  refine ⟨hcounter, htotal, ?_⟩
  rw [htotal, ← sum_count states]
  exact congrArg List.sum (List.map_congr_left fun state _ => hcounter state)

/-! ### Merging -/

theorem counter_merge (s t : Summary) (state : CheckState) :
    (s.merge t).counter state = s.counter state + t.counter state := by
  cases state <;> rfl

theorem merge_comm (s t : Summary) : s.merge t = t.merge s :=
  ext_counter (fun state => by simp only [counter_merge, UInt32.add_comm])
    (UInt32.add_comm s.total t.total)

theorem merge_assoc (s t u : Summary) : (s.merge t).merge u = s.merge (t.merge u) :=
  ext_counter (fun state => by simp only [counter_merge, UInt32.add_assoc])
    (UInt32.add_assoc s.total t.total u.total)

theorem ofStates_append (xs ys : List CheckState) :
    ofStates (xs ++ ys) = (ofStates xs).merge (ofStates ys) := by
  refine ext_counter (fun state => ?_) ?_
  · simp only [counter_merge, counter_ofStates, List.count_append, UInt32.ofNat_add]
  · simp only [merge, total_ofStates, List.length_append, UInt32.ofNat_add]

theorem ofStates_perm {xs ys : List CheckState} (h : xs.Perm ys) : ofStates xs = ofStates ys :=
  ext_counter (fun state => by rw [counter_ofStates, counter_ofStates, h.count_eq])
    (by rw [total_ofStates, total_ofStates, h.length_eq])

/-- The merged summaries of groups are the summary of all their checks. -/
theorem foldl_merge_ofStates (groups : List (List CheckState)) (states : List CheckState) :
    (groups.map ofStates).foldl merge (ofStates states) = ofStates (states ++ groups.flatten) := by
  induction groups generalizing states with
  | nil => rw [List.flatten_nil, List.append_nil]; rfl
  | cons first rest ih =>
    rw [List.map_cons, List.foldl_cons, ← ofStates_append, ih, List.flatten_cons,
      List.append_assoc]

/-- In whatever order the summaries of the groups are merged, it is the summary of all checks. -/
theorem merged_in_any_order {groups order : List (List CheckState)} (h : order.Perm groups) :
    (order.map ofStates).foldl merge zero = ofStates groups.flatten :=
  (foldl_merge_ofStates order []).trans (ofStates_perm h.flatten)

end Summary

/-- The summary of a report is that of the checks of all its groups. -/
theorem RunReport.summary_eq {report : RunReport} {groups : List Nat}
    {states : Nat → List CheckState}
    (h : report.groups.map GroupReport.summary = groups.map fun g => .ofStates (states g)) :
    report.summary = .ofStates (groups.flatMap states) := by
  have hsummaries : report.groups.map (fun g => g.summary) =
      (groups.map states).map Summary.ofStates := h.trans List.map_map.symm
  rw [summary, hsummaries, List.flatMap_def]
  exact Summary.foldl_merge_ofStates _ []

/-! ### Records -/

namespace Results

theorem countState_eq (results : Results) (state : CheckState) :
    results.countState state = (results.values.map Record.state).count state := by
  rw [countState, List.count, List.countP_map, List.countP_eq_length_filter]
  rfl

theorem sum_countState (results : Results) :
    (CheckState.all.map results.countState).sum = results.size := by
  have hcounts : results.countState = (results.values.map Record.state).count :=
    funext results.countState_eq
  rw [hcounts, Summary.sum_count, List.length_map, Keyed.values, List.length_map, Keyed.size]

theorem pairwise_suites (results : Results) : results.suites.Pairwise (· < ·) :=
  List.pairwise_map.mpr (Keyed.ordered _)

theorem mem_suites {results : Results} {suite : String} :
    suite ∈ results.suites ↔ ∃ id record, results.get? id = some record ∧
      record.testId.suite = suite := by
  have hrecords :
      suite ∈ results.suites ↔ ∃ record ∈ results.values, record.testId.suite = suite := by
    rw [suites, Keyed.mem_keys_ofList, List.map_map]
    exact List.mem_map
  rw [hrecords]
  constructor
  · rintro ⟨record, hrecord, rfl⟩
    obtain ⟨entry, hentry, rfl⟩ := List.mem_map.mp hrecord
    exact ⟨entry.1, entry.2, Keyed.get?_eq_some.mpr hentry, rfl⟩
  · rintro ⟨id, record, hrecord, rfl⟩
    exact ⟨record, List.mem_map.mpr ⟨(id, record), Keyed.get?_eq_some.mp hrecord, rfl⟩, rfl⟩

end Results

end Conformance
