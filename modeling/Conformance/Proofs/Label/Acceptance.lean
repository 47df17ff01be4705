import Conformance.Label.Filter
import Conformance.Proofs.Label.Drafts
import Conformance.Proofs.Label.Spelling

/-!
The language of label filters. A text is a filter exactly when it spells the tokens of a derivation
within the bound on nesting; there is one such derivation at most, and the filter selects the
labels that make it true.
-/
namespace Conformance.Label

theorem ofLexemes_eq_ok_iff (ls : List Lexeme) (e : Expr) :
    Expr.ofLexemes ls = .ok e ↔
      ∃ d : Disjunction, d.tokens = ls.map Lexeme.token ∧ d.nesting ≤ maxNesting ∧ d.expr = e := by
  constructor
  · exact exists_disjunction_of_ofLexemes
  · rintro ⟨d, htokens, hn, rfl⟩
    exact d.ofLexemes hn htokens.symm

theorem parse_eq_ok_iff (text : String) (filter : Filter) :
    Filter.parse text = .ok filter ↔ filter.source = text ∧
      ∃ ls, lexemes text = .ok ls ∧ Expr.ofLexemes ls = .ok filter.root := by
  obtain ⟨source, root⟩ := filter
  unfold Filter.parse
  cases hls : lexemes text with
  | error fault => simp [bind, Except.bind]
  | ok ls =>
    cases he : Expr.ofLexemes ls with
    | error fault => simp [bind, Except.bind, he]
    | ok e => simp [bind, Except.bind, pure, Except.pure, he, eq_comm]

/-- A filter comes from a derivation of the tokens that its text spells. -/
theorem parse_eq_ok_iff_exists_disjunction (text : String) (filter : Filter) :
    Filter.parse text = .ok filter ↔ filter.source = text ∧
      ∃ d : Disjunction, Spells text.toList d.tokens ∧ d.nesting ≤ maxNesting ∧
        d.expr = filter.root := by
  rw [parse_eq_ok_iff]
  constructor
  · rintro ⟨hsource, ls, hls, he⟩
    obtain ⟨d, htokens, hn, hd⟩ := (ofLexemes_eq_ok_iff ls filter.root).mp he
    have hspells := (exists_lexemes_iff text d.tokens).mp ⟨ls, hls, htokens.symm⟩
    exact ⟨hsource, d, hspells, hn, hd⟩
  · rintro ⟨hsource, d, hspells, hn, hd⟩
    obtain ⟨ls, hls, htokens⟩ := (exists_lexemes_iff text d.tokens).mpr hspells
    exact ⟨hsource, ls, hls, (ofLexemes_eq_ok_iff ls filter.root).mpr ⟨d, htokens.symm, hn, hd⟩⟩

/-- The language of filters: what is accepted, that it is unambiguous, and what it selects. -/
theorem filter_language (text : String) :
    ((∃ filter, Filter.parse text = .ok filter) ↔
      ∃ d : Disjunction, Spells text.toList d.tokens ∧ d.nesting ≤ maxNesting) ∧
    ∀ filter, Filter.parse text = .ok filter →
      ∃ d : Disjunction, Spells text.toList d.tokens ∧ d.nesting ≤ maxNesting ∧
        (∀ d' : Disjunction, Spells text.toList d'.tokens → d' = d) ∧
        ∀ labels, filter.selects labels = d.truth labels := by
  constructor
  · constructor
    · rintro ⟨filter, h⟩
      obtain ⟨-, d, hspells, hn, -⟩ := (parse_eq_ok_iff_exists_disjunction text filter).mp h
      exact ⟨d, hspells, hn⟩
    · rintro ⟨d, hspells, hn⟩
      exact ⟨⟨text, d.expr⟩,
        (parse_eq_ok_iff_exists_disjunction text _).mpr ⟨rfl, d, hspells, hn, rfl⟩⟩
  · intro filter h
    obtain ⟨-, d, hspells, hn, hd⟩ := (parse_eq_ok_iff_exists_disjunction text filter).mp h
    refine ⟨d, hspells, hn, ?_, ?_⟩
    · intro d' hspells'
      exact Disjunction.eq_of_tokens (hspells'.unique hspells)
    · intro labels
      rw [Filter.selects, ← hd, d.holds_expr]

section Precedence

/-- The derivation of `!b && a , c`: the negation and the conjunction stand inside. -/
def precedence : Disjunction :=
  .more (.more (.not (.primary (.word "b"))) (.one (.primary (.word "a"))))
    (.one (.one (.primary (.word "c"))))

theorem spells_precedence : Spells "!b && a , c".toList precedence.tokens := by
  have hword (c : Char) (h : isWordChar c = true) : ∀ d ∈ [c], isWordChar d = true := by
    simpa using h
  have hblank (cs : List Char) : ∀ d ∈ (' ' :: cs).head?, isWordChar d = false := by
    simpa using (by decide : isWordChar ' ' = false)
  refine .not (.word (c := 'b') (w := []) (hword _ (by decide)) (hblank _) ?_)
  refine .blank (by decide) (.ampersands (.blank (by decide) ?_))
  refine .word (c := 'a') (w := []) (hword _ (by decide)) (hblank _) (.blank (by decide) ?_)
  have hlast : Spells (['c'] ++ []) [.word "c"] :=
    .word (c := 'c') (w := []) (hword _ (by decide)) nofun .nil
  exact .comma (.blank (by decide) hlast)

theorem filter_language_precedence :
    ∃ filter, Filter.parse "!b && a , c" = .ok filter ∧ filter.selects ["a"] = true ∧
      filter.selects ["a", "b"] = false ∧ filter.selects ["b", "c"] = true := by
  obtain ⟨haccepted, htruth⟩ := filter_language "!b && a , c"
  obtain ⟨filter, hparse⟩ := haccepted.mpr ⟨precedence, spells_precedence, by decide⟩
  obtain ⟨d, -, -, hunique, hd⟩ := htruth filter hparse
  obtain rfl := hunique precedence spells_precedence
  exact ⟨filter, hparse, by rw [hd]; decide, by rw [hd]; decide, by rw [hd]; decide⟩

end Precedence

end Conformance.Label
