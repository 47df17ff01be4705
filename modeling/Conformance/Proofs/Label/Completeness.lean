import Conformance.Proofs.Label.Descent
import Conformance.Proofs.Label.Grammar

/-!
The tokens of a derivation are read to their end, within the bound on nesting. A term is read
under the negations that wait for it, whatever stands around it; a chain adds its terms to those
of the level in which it stands.
-/
namespace Conformance.Label

section Complete

open Reading

mutual
/-- The tokens of a term are read as that term, under the negations that wait for it. -/
theorem Unary.foldlM_read : (u : Unary) → {r : Reading} → {ls : List Lexeme} →
    r.termDue = true → r.nesting + u.nesting ≤ maxNesting → ls.map Lexeme.token = u.tokens →
    ls.foldlM Reading.read r = .ok (r.addTerm u.expr)
  | .not inner, r, ls, hdue, hn, hls => by
    obtain ⟨l, ls, rfl, hl, hls⟩ := List.map_eq_cons_iff.mp hls
    simp only [Unary.nesting] at hn
    rw [foldlM_cons (read_not hdue hl (by omega)),
      Unary.foldlM_read inner (r := r.deny) hdue (by simp only [deny]; omega) hls, addTerm_deny]
    rfl
  | .primary (.word text), r, ls, hdue, hn, hls => by
    obtain ⟨l, ls, rfl, hl, hls⟩ := List.map_eq_cons_iff.mp hls
    obtain rfl := List.map_eq_nil_iff.mp hls
    exact foldlM_cons (read_word hdue hl)
  | .primary (.parens inner), r, ls, hdue, hn, hls => by
    obtain ⟨l, ls, rfl, hl, hls⟩ := List.map_eq_cons_iff.mp hls
    obtain ⟨ls, ms, rfl, hinner, hms⟩ := List.map_eq_append_iff.mp hls
    obtain ⟨m, ms, rfl, hm, hms⟩ := List.map_eq_cons_iff.mp hms
    obtain rfl := List.map_eq_nil_iff.mp hms
    simp only [Unary.nesting, Primary.nesting] at hn
    obtain ⟨level, hread, hlevel⟩ := Disjunction.foldlM_read inner (r := r.enter l.position)
      rfl rfl rfl (by simp only [enter]; omega) hinner
    rw [foldlM_cons (read_opening hdue hl (by omega)), foldlM_append hread,
      foldlM_cons (read_closing rfl hm rfl)]
    have hexpr : level.expr = inner.expr := by
      simp [Level.expr, hlevel, Disjunction.expr, enter, Level.start]
    rw [hexpr]
    simp only [enter, Nat.add_sub_cancel, List.foldlM_nil]
    rfl

theorem Conjunction.foldlM_read : (c : Conjunction) → {r : Reading} → {ls : List Lexeme} →
    r.termDue = true → r.level.negations = 0 → r.nesting + c.nesting ≤ maxNesting →
    ls.map Lexeme.token = c.tokens →
    ls.foldlM Reading.read r = .ok { r with
      level := { r.level with conjuncts := c.exprs.reverse ++ r.level.conjuncts },
      termDue := false }
  | .one first, r, ls, hdue, hzero, hn, hls => by
    rw [Unary.foldlM_read first hdue hn hls]
    simp [addTerm, Level.addTerm, hzero, Expr.negate, Conjunction.exprs]
  | .more first rest, r, ls, hdue, hzero, hn, hls => by
    obtain ⟨ls, ms, rfl, hfirst, hms⟩ := List.map_eq_append_iff.mp hls
    obtain ⟨m, ms, rfl, hm, hms⟩ := List.map_eq_cons_iff.mp hms
    simp only [Conjunction.nesting] at hn
    rw [foldlM_append (Unary.foldlM_read first hdue (by omega) hfirst),
      foldlM_cons (read_and rfl hm),
      Conjunction.foldlM_read rest rfl rfl (by simp only [addTerm]; omega) hms]
    simp [addTerm, Level.addTerm, hzero, Expr.negate, Conjunction.exprs]

theorem Disjunction.foldlM_read : (d : Disjunction) → {r : Reading} → {ls : List Lexeme} →
    r.termDue = true → r.level.negations = 0 → r.level.conjuncts = [] →
    r.nesting + d.nesting ≤ maxNesting → ls.map Lexeme.token = d.tokens →
    ∃ level : Level,
      ls.foldlM Reading.read r = .ok { r with level := level, termDue := false } ∧
      level.closeConjunction.disjuncts = d.exprs.reverse ++ r.level.disjuncts
  | .one first, r, ls, hdue, hzero, hempty, hn, hls => by
    refine ⟨_, Conjunction.foldlM_read first hdue hzero hn hls, ?_⟩
    simp [Level.closeConjunction, hempty, Disjunction.exprs]
  | .more first rest, r, ls, hdue, hzero, hempty, hn, hls => by
    obtain ⟨ls, ms, rfl, hfirst, hms⟩ := List.map_eq_append_iff.mp hls
    obtain ⟨m, ms, rfl, hm, hms⟩ := List.map_eq_cons_iff.mp hms
    simp only [Disjunction.nesting] at hn
    let closed : Level :=
      { r.level with conjuncts := first.exprs.reverse ++ r.level.conjuncts }.closeConjunction
    obtain ⟨level, hread, hlevel⟩ :=
      Disjunction.foldlM_read rest (r := { r with level := closed, termDue := true })
        rfl hzero rfl (by simp only; omega) hms
    refine ⟨level, ?_, ?_⟩
    · rw [foldlM_append (Conjunction.foldlM_read first hdue hzero (by omega) hfirst),
        foldlM_cons (read_or rfl hm)]
      exact hread
    · rw [hlevel]
      simp [closed, Level.closeConjunction, hempty, Disjunction.exprs]
end

end Complete

/-- A disjunction is read from the start to an end. -/
theorem Disjunction.ofLexemes (d : Disjunction) {ls : List Lexeme}
    (hn : d.nesting ≤ maxNesting) (hls : ls.map Lexeme.token = d.tokens) :
    Expr.ofLexemes ls = .ok d.expr := by
  obtain ⟨level, hread, hlevel⟩ := d.foldlM_read (r := Reading.start) rfl rfl rfl
    (by simpa [Reading.start] using hn) hls
  have hexpr : level.expr = d.expr := by
    simp [Level.expr, hlevel, Disjunction.expr, Reading.start, Level.start]
  have hne : ls ≠ [] := by
    have hlen := congrArg List.length hls
    have hpos := d.tokens_length_pos
    rw [List.length_map] at hlen
    exact List.ne_nil_of_length_pos (by omega)
  rw [Expr.ofLexemes_eq_toEnd hne, Reading.toEnd, hread]
  simp [bind, Except.bind, Reading.finish, Reading.start, hexpr]

end Conformance.Label
