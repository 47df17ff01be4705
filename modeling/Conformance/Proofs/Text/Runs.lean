import Conformance.Text.Blank
import Mathlib.Data.List.TakeWhile

/-!
Runs of characters of one kind, as scanners cut them off: words, numbers and white space.
-/
namespace Conformance.Text

/-- A run ends where a text begins with a character of another kind. -/
theorem span_append {p : Char → Bool} {run rest : List Char} (hrun : ∀ c ∈ run, p c = true)
    (hrest : ∀ c ∈ rest.head?, p c = false) :
    (run ++ rest).takeWhile p = run ∧ (run ++ rest).dropWhile p = rest := by
  rw [List.takeWhile_append_of_pos hrun, List.dropWhile_append_of_pos hrun]
  cases rest with
  | nil => simp
  | cons c rest => simp [hrest c rfl]

/-- Where runs of one kind are cut off, the runs and what follows them are determined. -/
theorem append_inj_of_runs {p : Char → Bool} {run run' rest rest' : List Char}
    (hrun : ∀ c ∈ run, p c = true) (hrun' : ∀ c ∈ run', p c = true)
    (hrest : ∀ c ∈ rest.head?, p c = false) (hrest' : ∀ c ∈ rest'.head?, p c = false)
    (h : run ++ rest = run' ++ rest') : run = run' ∧ rest = rest' := by
  obtain ⟨htake, hdrop⟩ := span_append hrun hrest
  rw [h] at htake hdrop
  obtain ⟨htake', hdrop'⟩ := span_append hrun' hrest'
  exact ⟨htake.symm.trans htake', hdrop.symm.trans hdrop'⟩

theorem not_isBlank_of_isDigit {c : Char} (h : c.isDigit) : isBlank c = false := by
  have hrange : 48 ≤ c.toNat ∧ c.toNat ≤ 57 := by
    simpa [Char.isDigit, UInt32.le_iff_toNat_le] using h
  have hdigits : ∀ n ≤ 57, 48 ≤ n → inRanges blankRanges n = false := by decide
  exact hdigits c.toNat hrange.2 hrange.1

end Conformance.Text
