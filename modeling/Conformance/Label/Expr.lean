/-!
Label expressions as trees. Chains of alternatives and of conjuncts are flat, so the height of a
tree grows with negations and parentheses only.
-/
namespace Conformance.Label

inductive Expr where
  | label (text : String)
  | not (inner : Expr)
  | all (terms : List Expr)
  | any (terms : List Expr)

namespace Expr

mutual
/-- A label holds when it is one of those given. -/
def holds (labels : List String) : Expr → Bool
  | label text => labels.any (· == text)
  | not inner => !inner.holds labels
  | all terms => allHold labels terms
  | any terms => anyHolds labels terms

def allHold (labels : List String) : List Expr → Bool
  | [] => true
  | term :: rest => term.holds labels && allHold labels rest

def anyHolds (labels : List String) : List Expr → Bool
  | [] => false
  | term :: rest => term.holds labels || anyHolds labels rest
end

mutual
def height : Expr → Nat
  | label _ => 1
  | not inner => inner.height + 1
  | all terms => maxHeight terms + 1
  | any terms => maxHeight terms + 1

def maxHeight : List Expr → Nat
  | [] => 0
  | term :: rest => max term.height (maxHeight rest)
end

theorem allHold_eq_all (labels : List String) (terms : List Expr) :
    allHold labels terms = terms.all (holds labels) := by
  induction terms with
  | nil => simp [allHold]
  | cons term rest ih => simp [allHold, ih]

theorem anyHolds_eq_any (labels : List String) (terms : List Expr) :
    anyHolds labels terms = terms.any (holds labels) := by
  induction terms with
  | nil => simp [anyHolds]
  | cons term rest ih => simp [anyHolds, ih]

/-- A chain of one term is that term. -/
def conjunction : List Expr → Expr
  | [term] => term
  | terms => all terms

def disjunction : List Expr → Expr
  | [term] => term
  | terms => any terms

/-- The expression under `n` negations. -/
def negate : Nat → Expr → Expr
  | 0, e => e
  | n + 1, e => not (negate n e)

theorem holds_conjunction (labels : List String) (terms : List Expr) :
    (conjunction terms).holds labels = terms.all (holds labels) := by
  unfold conjunction
  split <;> simp [holds, allHold_eq_all]

theorem holds_disjunction (labels : List String) (terms : List Expr) :
    (disjunction terms).holds labels = terms.any (holds labels) := by
  unfold disjunction
  split <;> simp [holds, anyHolds_eq_any]

end Expr

end Conformance.Label
