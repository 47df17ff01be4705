/-!
Character classes given as ascending, disjoint ranges of code points.
-/
namespace Conformance.Text

/-- The ranges ascend, so the search ends at the first one that starts beyond the code point. -/
def inRanges : List (Nat × Nat) → Nat → Bool
  | [], _ => false
  | (first, last) :: rest, n => if n < first then false else n ≤ last || inRanges rest n

end Conformance.Text
