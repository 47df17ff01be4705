import Conformance.Label.Expr
import Conformance.Label.Token

/-!
The grammar of label expressions, as trees of derivations: an expression is a chain of conjunctions
between `||`, a conjunction is a chain of terms between `&&`, and a term is a word or an expression
in parentheses under any number of `!`. A derivation has a yield, a nesting and a truth, and a list
of tokens is the yield of one derivation at most.
-/
namespace Conformance.Label

mutual
/-- `or := and ("||" and)*` -/
inductive Disjunction where
  | one (first : Conjunction)
  | more (first : Conjunction) (rest : Disjunction)

/-- `and := unary ("&&" unary)*` -/
inductive Conjunction where
  | one (first : Unary)
  | more (first : Unary) (rest : Conjunction)

/-- `unary := "!" unary | primary` -/
inductive Unary where
  | not (inner : Unary)
  | primary (inner : Primary)

/-- `primary := WORD | "(" or ")"` -/
inductive Primary where
  | word (text : String)
  | parens (inner : Disjunction)
end

section Yield

mutual
def Disjunction.tokens : Disjunction → List Token
  | .one first => first.tokens
  | .more first rest => first.tokens ++ .or :: rest.tokens

def Conjunction.tokens : Conjunction → List Token
  | .one first => first.tokens
  | .more first rest => first.tokens ++ .and :: rest.tokens

def Unary.tokens : Unary → List Token
  | .not inner => .not :: inner.tokens
  | .primary inner => inner.tokens

def Primary.tokens : Primary → List Token
  | .word text => [.word text]
  | .parens inner => .opening :: (inner.tokens ++ [.closing])
end

mutual
theorem Disjunction.tokens_length_pos : (d : Disjunction) → 0 < d.tokens.length
  | .one first => first.tokens_length_pos
  | .more first rest => by rw [Disjunction.tokens, List.length_append, List.length_cons]; omega

theorem Conjunction.tokens_length_pos : (c : Conjunction) → 0 < c.tokens.length
  | .one first => first.tokens_length_pos
  | .more first rest => by rw [Conjunction.tokens, List.length_append, List.length_cons]; omega

theorem Unary.tokens_length_pos : (u : Unary) → 0 < u.tokens.length
  | .not inner => by simp [Unary.tokens]
  | .primary inner => inner.tokens_length_pos

theorem Primary.tokens_length_pos : (p : Primary) → 0 < p.tokens.length
  | .word text => by simp [Primary.tokens]
  | .parens inner => by simp [Primary.tokens]
end

end Yield

section Nesting

mutual
/-- The most negations and parentheses that enclose one another on a path. -/
def Disjunction.nesting : Disjunction → Nat
  | .one first => first.nesting
  | .more first rest => max first.nesting rest.nesting

def Conjunction.nesting : Conjunction → Nat
  | .one first => first.nesting
  | .more first rest => max first.nesting rest.nesting

def Unary.nesting : Unary → Nat
  | .not inner => inner.nesting + 1
  | .primary inner => inner.nesting

def Primary.nesting : Primary → Nat
  | .word _ => 0
  | .parens inner => inner.nesting + 1
end

end Nesting

section Truth

variable (labels : List String)

mutual
/-- A word is true when it is one of the labels. -/
def Disjunction.truth : Disjunction → Bool
  | .one first => first.truth
  | .more first rest => first.truth || rest.truth

def Conjunction.truth : Conjunction → Bool
  | .one first => first.truth
  | .more first rest => first.truth && rest.truth

def Unary.truth : Unary → Bool
  | .not inner => !inner.truth
  | .primary inner => inner.truth

def Primary.truth : Primary → Bool
  | .word text => decide (text ∈ labels)
  | .parens inner => inner.truth
end

end Truth

section Shape

mutual
/-- The expression of a derivation, in which chains are flat. -/
def Disjunction.exprs : Disjunction → List Expr
  | .one first => [.conjunction first.exprs]
  | .more first rest => .conjunction first.exprs :: rest.exprs

def Conjunction.exprs : Conjunction → List Expr
  | .one first => [first.expr]
  | .more first rest => first.expr :: rest.exprs

def Unary.expr : Unary → Expr
  | .not inner => .not inner.expr
  | .primary inner => inner.expr

def Primary.expr : Primary → Expr
  | .word text => .label text
  | .parens inner => .disjunction inner.exprs
end

def Disjunction.expr (d : Disjunction) : Expr := .disjunction d.exprs

mutual
theorem Disjunction.any_exprs (labels : List String) : (d : Disjunction) →
    d.exprs.any (Expr.holds labels) = d.truth labels
  | .one first => by
    simp [Disjunction.exprs, Disjunction.truth, Expr.holds_conjunction,
      Conjunction.all_exprs labels first]
  | .more first rest => by
    simp [Disjunction.exprs, Disjunction.truth, Expr.holds_conjunction,
      Conjunction.all_exprs labels first, Disjunction.any_exprs labels rest]

theorem Conjunction.all_exprs (labels : List String) : (c : Conjunction) →
    c.exprs.all (Expr.holds labels) = c.truth labels
  | .one first => by
    simp [Conjunction.exprs, Conjunction.truth, Unary.holds_expr labels first]
  | .more first rest => by
    simp [Conjunction.exprs, Conjunction.truth, Unary.holds_expr labels first,
      Conjunction.all_exprs labels rest]

theorem Unary.holds_expr (labels : List String) : (u : Unary) →
    u.expr.holds labels = u.truth labels
  | .not inner => by simp [Unary.expr, Unary.truth, Expr.holds, Unary.holds_expr labels inner]
  | .primary inner => by simp [Unary.expr, Unary.truth, Primary.holds_expr labels inner]

theorem Primary.holds_expr (labels : List String) : (p : Primary) →
    p.expr.holds labels = p.truth labels
  | .word text => by simp [Primary.expr, Primary.truth, Expr.holds, List.any_beq']
  | .parens inner => by
    simp [Primary.expr, Primary.truth, Expr.holds_disjunction, Disjunction.any_exprs labels inner]
end

/-- The expression of a derivation holds where the derivation is true. -/
theorem Disjunction.holds_expr (labels : List String) (d : Disjunction) :
    d.expr.holds labels = d.truth labels :=
  (Expr.holds_disjunction labels d.exprs).trans (d.any_exprs labels)

end Shape

section Unique

/-- What follows a conjunction goes on with it unless it begins with something else than `&&`. -/
private theorem false_of_and_cons {ts us : List Token} (h : ts = .and :: us)
    (hts : ts.head? ≠ some .and) : False := hts (by rw [h]; rfl)

private theorem false_of_or_cons {ts us : List Token} (h : ts = .or :: us)
    (hts : ts.head? ≠ some .or) : False := hts (by rw [h]; rfl)

mutual
theorem Disjunction.eq_of_tokens_append : (d d' : Disjunction) → {ts us : List Token} →
    ts.head? ≠ some .and → us.head? ≠ some .and → ts.head? ≠ some .or → us.head? ≠ some .or →
    d.tokens ++ ts = d'.tokens ++ us → d = d' ∧ ts = us
  | .one first, .one first', ts, us, hta, hua, hto, huo, h => by
    simp only [Disjunction.tokens] at h
    obtain ⟨rfl, rfl⟩ := Conjunction.eq_of_tokens_append first first' hta hua h
    exact ⟨rfl, rfl⟩
  | .one first, .more first' rest', ts, us, hta, hua, hto, huo, h => by
    simp only [Disjunction.tokens, List.append_assoc, List.cons_append] at h
    obtain ⟨-, hrest⟩ := Conjunction.eq_of_tokens_append first first' hta (by simp) h
    exact (false_of_or_cons hrest hto).elim
  | .more first rest, .one first', ts, us, hta, hua, hto, huo, h => by
    simp only [Disjunction.tokens, List.append_assoc, List.cons_append] at h
    obtain ⟨-, hrest⟩ := Conjunction.eq_of_tokens_append first first' (by simp) hua h
    exact (false_of_or_cons hrest.symm huo).elim
  | .more first rest, .more first' rest', ts, us, hta, hua, hto, huo, h => by
    simp only [Disjunction.tokens, List.append_assoc, List.cons_append] at h
    obtain ⟨rfl, hrest⟩ := Conjunction.eq_of_tokens_append first first' (by simp) (by simp) h
    obtain ⟨rfl, rfl⟩ := Disjunction.eq_of_tokens_append rest rest' hta hua hto huo
      (List.cons.inj hrest).2
    exact ⟨rfl, rfl⟩

theorem Conjunction.eq_of_tokens_append : (c c' : Conjunction) → {ts us : List Token} →
    ts.head? ≠ some .and → us.head? ≠ some .and →
    c.tokens ++ ts = c'.tokens ++ us → c = c' ∧ ts = us
  | .one first, .one first', ts, us, hta, hua, h => by
    simp only [Conjunction.tokens] at h
    obtain ⟨rfl, rfl⟩ := Unary.eq_of_tokens_append first first' h
    exact ⟨rfl, rfl⟩
  | .one first, .more first' rest', ts, us, hta, hua, h => by
    simp only [Conjunction.tokens, List.append_assoc, List.cons_append] at h
    obtain ⟨-, hrest⟩ := Unary.eq_of_tokens_append first first' h
    exact (false_of_and_cons hrest hta).elim
  | .more first rest, .one first', ts, us, hta, hua, h => by
    simp only [Conjunction.tokens, List.append_assoc, List.cons_append] at h
    obtain ⟨-, hrest⟩ := Unary.eq_of_tokens_append first first' h
    exact (false_of_and_cons hrest.symm hua).elim
  | .more first rest, .more first' rest', ts, us, hta, hua, h => by
    simp only [Conjunction.tokens, List.append_assoc, List.cons_append] at h
    obtain ⟨rfl, hrest⟩ := Unary.eq_of_tokens_append first first' h
    obtain ⟨rfl, rfl⟩ := Conjunction.eq_of_tokens_append rest rest' hta hua
      (List.cons.inj hrest).2
    exact ⟨rfl, rfl⟩

theorem Unary.eq_of_tokens_append : (u u' : Unary) → {ts us : List Token} →
    u.tokens ++ ts = u'.tokens ++ us → u = u' ∧ ts = us
  | .not inner, .not inner', ts, us, h => by
    simp only [Unary.tokens, List.cons_append, List.cons.injEq, true_and] at h
    obtain ⟨rfl, rfl⟩ := Unary.eq_of_tokens_append inner inner' h
    exact ⟨rfl, rfl⟩
  | .not inner, .primary inner', ts, us, h => by
    cases inner' <;> simp [Unary.tokens, Primary.tokens] at h
  | .primary inner, .not inner', ts, us, h => by
    cases inner <;> simp [Unary.tokens, Primary.tokens] at h
  | .primary inner, .primary inner', ts, us, h => by
    simp only [Unary.tokens] at h
    obtain ⟨rfl, rfl⟩ := Primary.eq_of_tokens_append inner inner' h
    exact ⟨rfl, rfl⟩

theorem Primary.eq_of_tokens_append : (p p' : Primary) → {ts us : List Token} →
    p.tokens ++ ts = p'.tokens ++ us → p = p' ∧ ts = us
  | .word text, .word text', ts, us, h => by simpa [Primary.tokens] using h
  | .word text, .parens inner', ts, us, h => by simp [Primary.tokens] at h
  | .parens inner, .word text', ts, us, h => by simp [Primary.tokens] at h
  | .parens inner, .parens inner', ts, us, h => by
    simp only [Primary.tokens, List.cons_append, List.append_assoc, List.cons.injEq, true_and,
      List.nil_append] at h
    obtain ⟨rfl, hrest⟩ := Disjunction.eq_of_tokens_append inner inner' (by simp) (by simp)
      (by simp) (by simp) h
    exact ⟨rfl, (List.cons.inj hrest).2⟩
end

/-- Tokens have one derivation at most. -/
theorem Disjunction.eq_of_tokens {d d' : Disjunction} (h : d.tokens = d'.tokens) : d = d' := by
  have happend : d.tokens ++ [] = d'.tokens ++ [] := by rw [h]
  exact (Disjunction.eq_of_tokens_append d d' (by simp) (by simp) (by simp) (by simp) happend).1

end Unique

end Conformance.Label
