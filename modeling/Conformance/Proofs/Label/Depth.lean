import Conformance.Proofs.Label.Acceptance
import Conformance.Proofs.Label.Calls
import Conformance.Proofs.Label.Enclosure
import Conformance.Proofs.Label.Faults

/-!
How deep label expressions go. At each lexeme that the recursive descent takes, its counter is the
number of negations and parentheses around it, of which there may be so many and no more. Chains are
flat, so that only these make the tree of an expression higher: a negation by one level, and a
parenthesis by the two of a chain of alternatives and a chain of conjuncts.
-/
namespace Conformance.Label

section Heights

/-- A word of the tokens stands deep enough for a tree of the height, at two levels for every
parenthesis and one for every negation around it. -/
def HasRoomFor (ts : List Token) (height : Nat) : Prop :=
  ∃ before text after, ts = before ++ .word text :: after ∧
    height ≤ 2 * (Token.enclosers (.word text) before).count .opening +
      (Token.enclosers (.word text) before).count .not + 1

variable {ts us : List Token} {height : Nat}

theorem HasRoomFor.mono {lower : Nat} (h : HasRoomFor ts height) (hle : lower ≤ height) :
    HasRoomFor ts lower := by
  obtain ⟨before, text, after, htokens, hheight⟩ := h
  exact ⟨before, text, after, htokens, Nat.le_trans hle hheight⟩

theorem HasRoomFor.append_right (h : HasRoomFor ts height) (us : List Token) :
    HasRoomFor (ts ++ us) height := by
  obtain ⟨before, text, after, rfl, hheight⟩ := h
  exact ⟨before, text, after ++ us, by rw [List.append_assoc, List.cons_append], hheight⟩

/-- What comes before a word and does not enclose it leaves it as deep as it was. -/
theorem HasRoomFor.append_left (h : HasRoomFor us height)
    (hts : ∀ t before, Token.enclosers t (ts ++ before) = t.enclosers before) :
    HasRoomFor (ts ++ us) height := by
  obtain ⟨before, text, after, rfl, hheight⟩ := h
  exact ⟨ts ++ before, text, after, (List.append_assoc ..).symm, by rwa [hts]⟩

/-- An operand goes on as long as one of its tokens is still to come. -/
theorem Unary.awaitsMore_of_eq : (u : Unary) → {before after : List Token} → {t : Token} →
    u.tokens = before ++ t :: after → awaitsMore before = true
  | _, [], _, _, _ => rfl
  | .not inner, s :: before, after, t, h => by
    obtain ⟨rfl, hinner⟩ := List.cons.inj h
    change awaitsMore before = true
    exact inner.awaitsMore_of_eq hinner
  | .primary (.word text), s :: before, after, t, h => by
    simp [Unary.tokens, Primary.tokens] at h
  | .primary (.parens inner), s :: before, after, t, h => by
    obtain ⟨rfl, hinner⟩ := List.cons.inj h
    have hbefore : before <+: inner.tokens := by
      refine (List.prefix_concat_iff.mp ⟨t :: after, hinner.symm⟩).resolve_left ?_
      rintro rfl
      simp at hinner
    obtain ⟨rest, hrest⟩ := hbefore
    have hopen := inner.staysOpen_tokens 0
    rw [← hrest] at hopen
    exact staysOpen_of_append (n := 0) hopen

theorem Unary.hasRoomFor_not {u : Unary} (h : HasRoomFor u.tokens height) :
    HasRoomFor (Unary.not u).tokens (height + 1) := by
  obtain ⟨before, text, after, htokens, hheight⟩ := h
  refine ⟨.not :: before, text, after, congrArg (Token.not :: ·) htokens, ?_⟩
  rw [enclosers_of_encloses (encloses_not_of_awaitsMore (u.awaitsMore_of_eq htokens) _),
    List.count_cons_self, List.count_cons_of_ne (by decide)]
  omega

theorem Primary.hasRoomFor_parens {d : Disjunction} (h : HasRoomFor d.tokens height) :
    HasRoomFor (Primary.parens d).tokens (height + 2) := by
  obtain ⟨before, text, after, htokens, hheight⟩ := h
  have hencloses : Token.opening.Encloses before (.word text) := Disjunction.goesOn_of_eq htokens
  refine ⟨.opening :: before, text, after ++ [.closing], ?_, ?_⟩
  · rw [Primary.tokens, htokens, List.append_assoc, List.cons_append, List.cons_append]
  · rw [enclosers_of_encloses hencloses, List.count_cons_self, List.count_cons_of_ne (by decide)]
    omega

theorem Expr.height_conjunction_le (terms : List Expr) :
    (Expr.conjunction terms).height ≤ Expr.maxHeight terms + 1 := by
  unfold conjunction
  split
  · exact Nat.le_succ_of_le (Nat.le_max_left _ _)
  · exact Nat.le_refl _

theorem Expr.height_disjunction_le (terms : List Expr) :
    (Expr.disjunction terms).height ≤ Expr.maxHeight terms + 1 := by
  unfold disjunction
  split
  · exact Nat.le_succ_of_le (Nat.le_max_left _ _)
  · exact Nat.le_refl _

mutual
/-- A chain of alternatives is one level higher than the highest of its conjunctions. -/
theorem Disjunction.exists_room : (d : Disjunction) →
    ∃ height, HasRoomFor d.tokens height ∧ Expr.maxHeight d.exprs ≤ height + 1
  | .one first => by
    refine ⟨_, first.hasRoomFor_maxHeight, Nat.max_le.mpr ⟨?_, Nat.zero_le _⟩⟩
    exact Expr.height_conjunction_le first.exprs
  | .more first rest => by
    obtain ⟨height, hroom, hheight⟩ := rest.exists_room
    have hfirst := Expr.height_conjunction_le first.exprs
    rcases Nat.le_total (Expr.maxHeight first.exprs) height with hle | hle
    · refine ⟨height, ?_, Nat.max_le.mpr ⟨by omega, hheight⟩⟩
      rw [Disjunction.tokens, List.append_cons]
      exact hroom.append_left fun t before => by
        rw [List.append_assoc, first.enclosers_append]
        exact enclosers_of_not_encloses id
    · refine ⟨_, first.hasRoomFor_maxHeight.append_right _, Nat.max_le.mpr ⟨hfirst, by omega⟩⟩

/-- A chain of conjuncts is as high inside as one of its words is deep. -/
theorem Conjunction.hasRoomFor_maxHeight : (c : Conjunction) →
    HasRoomFor c.tokens (Expr.maxHeight c.exprs)
  | .one first => by
    rw [Conjunction.exprs, Expr.maxHeight, Expr.maxHeight, Nat.max_zero]
    exact first.hasRoomFor_height
  | .more first rest => by
    rw [Conjunction.exprs, Expr.maxHeight, Conjunction.tokens]
    rcases Nat.le_total first.expr.height (Expr.maxHeight rest.exprs) with hle | hle
    · rw [Nat.max_eq_right hle, List.append_cons]
      exact rest.hasRoomFor_maxHeight.append_left fun t before => by
        rw [List.append_assoc, first.enclosers_append]
        exact enclosers_of_not_encloses id
    · rw [Nat.max_eq_left hle]
      exact first.hasRoomFor_height.append_right _

theorem Unary.hasRoomFor_height : (u : Unary) → HasRoomFor u.tokens u.expr.height
  | .not inner => Unary.hasRoomFor_not inner.hasRoomFor_height
  | .primary inner => inner.hasRoomFor_height

theorem Primary.hasRoomFor_height : (p : Primary) → HasRoomFor p.tokens p.expr.height
  | .word text => ⟨[], text, [], rfl, Nat.le_refl _⟩
  | .parens inner => by
    obtain ⟨height, hroom, hheight⟩ := inner.exists_room
    have hle := Expr.height_disjunction_le inner.exprs
    exact (Primary.hasRoomFor_parens hroom).mono (by simp only [Primary.expr]; omega)
end

theorem Disjunction.hasRoomFor_height (d : Disjunction) :
    ∃ before text after, d.tokens = before ++ .word text :: after ∧ d.expr.height ≤
      2 * ((Token.enclosers (.word text) before).count .opening + 1) +
        (Token.enclosers (.word text) before).count .not + 1 := by
  obtain ⟨height, ⟨before, text, after, htokens, hheight⟩, hmax⟩ := d.exists_room
  have hchain := Expr.height_disjunction_le d.exprs
  refine ⟨before, text, after, htokens, ?_⟩
  rw [Disjunction.expr]
  omega

end Heights

section Evaluation

namespace Expr

variable {labels : List String}

/-- Whether an expression holds, as far as it can be told within so many levels of its tree. -/
def holdsWithin (labels : List String) : Nat → Expr → Option Bool
  | 0, _ => none
  | _ + 1, label text => some (labels.any (· == text))
  | n + 1, not inner => (inner.holdsWithin labels n).map (!·)
  | n + 1, all terms => terms.allM (holdsWithin labels n)
  | n + 1, any terms => terms.anyM (holdsWithin labels n)

theorem height_le_maxHeight {terms : List Expr} {e : Expr} (h : e ∈ terms) :
    e.height ≤ maxHeight terms := by
  induction terms with
  | nil => cases h
  | cons term rest ih =>
    rcases List.mem_cons.mp h with rfl | h
    · exact Nat.le_max_left _ _
    · exact Nat.le_trans (ih h) (Nat.le_max_right _ _)

theorem allM_of_some {f : Expr → Option Bool} {g : Expr → Bool} {terms : List Expr}
    (h : ∀ e ∈ terms, f e = some (g e)) : terms.allM f = some (terms.all g) := by
  induction terms with
  | nil => rfl
  | cons term rest ih =>
    obtain ⟨hterm, hrest⟩ := List.forall_mem_cons.mp h
    rw [List.allM, hterm, List.all_cons, ih hrest]
    cases g term <;> rfl

theorem anyM_of_some {f : Expr → Option Bool} {g : Expr → Bool} {terms : List Expr}
    (h : ∀ e ∈ terms, f e = some (g e)) : terms.anyM f = some (terms.any g) := by
  induction terms with
  | nil => rfl
  | cons term rest ih =>
    obtain ⟨hterm, hrest⟩ := List.forall_mem_cons.mp h
    rw [List.anyM, hterm, List.any_cons, ih hrest]
    cases g term <;> rfl

/-- The height of the tree is enough. -/
theorem holdsWithin_of_height_le {n : Nat} {e : Expr} (h : e.height ≤ n) :
    e.holdsWithin labels n = some (e.holds labels) := by
  induction n generalizing e with
  | zero => cases e <;> simp [height] at h
  | succ n ih =>
    cases e with
    | label text => rfl
    | not inner =>
      rw [holdsWithin, ih (Nat.le_of_succ_le_succ h)]
      rfl
    | all terms =>
      rw [holdsWithin, holds, allHold_eq_all]
      exact allM_of_some fun e he => ih
        (Nat.le_trans (height_le_maxHeight he) (Nat.le_of_succ_le_succ h))
    | any terms =>
      rw [holdsWithin, holds, anyHolds_eq_any]
      exact anyM_of_some fun e he => ih
        (Nat.le_trans (height_le_maxHeight he) (Nat.le_of_succ_le_succ h))

end Expr

end Evaluation

section Texts

open Conformance.Label.Parser Conformance.Label.Parser.Call

variable {ls : List Lexeme}

/-- The counter of the parser at a lexeme that it takes is the number of its enclosers. -/
theorem Parser.Call.Reaches.depth_eq {c : Call} (h : Reaches (whole (start ls)) c) :
    ∃ before, ls = before ++ c.parser.rest ∧ ∀ l rest, c.parser.rest = l :: rest →
      c.Takes l.token → c.parser.depth = (l.token.enclosers (before.map Lexeme.token)).length := by
  obtain ⟨before, r, hbefore, hr, hmeets⟩ := h.meets
  have hreflects := Reading.Reflects.start.foldlM hr
  rw [List.nil_append] at hreflects
  refine ⟨before, hbefore, fun l rest hrest htakes => ?_⟩
  have hpeek {p : Parser} (hp : p.rest = l :: rest) {t : Token} (ht : p.peek ≠ some t) :
      l.token ≠ t := by
    rintro rfl
    exact ht (by rw [peek, hp]; rfl)
  cases c with
  | whole p | disjunction p | conjunction p => exact htakes.elim
  | alternatives terms p =>
    obtain ⟨hmeets, -⟩ := hmeets
    rw [hreflects.length_enclosers_of_connective hmeets.termDue (.inr htakes)]
    exact hmeets.nesting.symm
  | conjuncts terms p =>
    obtain ⟨hmeets, -⟩ := hmeets
    rw [hreflects.length_enclosers_of_connective hmeets.termDue (.inl htakes)]
    exact hmeets.nesting.symm
  | unary p | primary p =>
    rw [hreflects.length_enclosers_of_due hmeets.termDue]
    exact hmeets.nesting.symm
  | close opening inner p =>
    obtain ⟨-, hdone, hnesting, hand, hor, -⟩ := hmeets
    rw [hreflects.length_enclosers_of_end hdone (hpeek hrest hand) (hpeek hrest hor), hnesting]
    rfl
  | finish root p =>
    obtain ⟨hmeets, hand, hor, henclosing⟩ := hmeets
    have hzero := hreflects.nesting_eq_zero hmeets.termDue henclosing
    rw [hreflects.length_enclosers_of_end hmeets.termDue (hpeek hrest hand) (hpeek hrest hor),
      hzero]
    exact hmeets.nesting.symm.trans hzero

theorem Parser.toExcept_whole (hne : ls ≠ []) : (start ls).whole.toExcept = Expr.ofLexemes ls := by
  rw [Expr.ofLexemes, List.isEmpty_eq_false_iff.mpr hne, if_neg Bool.false_ne_true]

/-- Only the fault that says so leaves the parser too deep, and an expression leaves nothing. -/
theorem Parser.whole_left (ls : List Lexeme) :
    (∀ fault q, (start ls).whole = .error fault q → FaultDepth fault q.depth) ∧
      ∀ e q h, (start ls).whole = .ok e q h → q = ⟨[], 0⟩ := by
  have htracks := whole_tracks ls
  refine ⟨fun fault q hwhole => ?_, fun e q h hwhole => ?_⟩
  · rw [hwhole] at htracks
    exact htracks.2
  · rw [hwhole] at htracks
    obtain ⟨hdepth, -, -, -, -, hrest, -⟩ := htracks
    obtain ⟨rest, depth⟩ := q
    obtain rfl : rest = [] := hrest
    obtain rfl : depth = 0 := hdepth
    rfl

/-- The recursive descent comes to an end: no call leads on without end. Whatever is called while
lexemes are parsed, the counter is within the bound, and where a lexeme is taken the counter is the
number of negations and parentheses that enclose it. Each lexeme is taken so that is not left at the
end, and an expression leaves none of them and a counter of 0. A fault leaves a counter above the
bound, by one, if it is that of the nesting. The tree of a filter is as high as one of its words is
deep, two levels for each parenthesis and one for each negation, however long the text is, so that
515 levels of evaluation are enough. -/
theorem recursion_is_bounded (ls : List Lexeme) (text : String) :
    (WellFounded fun d c : Call => c.Leads d) ∧
    (∀ c, Reaches (whole (start ls)) c → c.parser.depth ≤ maxNesting ∧
      ∃ before, ls = before ++ c.parser.rest ∧ ∀ l rest, c.parser.rest = l :: rest →
        c.Takes l.token →
          c.parser.depth = (l.token.enclosers (before.map Lexeme.token)).length) ∧
    (∀ l after, l :: after <:+ ls → (start ls).whole.parser.rest.length ≤ after.length →
      ∃ c, Reaches (whole (start ls)) c ∧ c.parser.rest = l :: after ∧ c.Takes l.token) ∧
    (∀ fault q, (start ls).whole = .error fault q → q.depth ≤ maxNesting + 1 ∧
      (q.depth = maxNesting + 1 ↔ ∃ position, fault = .tooDeep position)) ∧
    (∀ e, Expr.ofLexemes ls = .ok e → ∃ h, (start ls).whole = .ok e ⟨[], 0⟩ h) ∧
    ∀ filter, Filter.parse text = .ok filter → ∃ before word after,
      Spells text.toList (before ++ .word word :: after) ∧
      let p := (Token.enclosers (.word word) before).count .opening
      let n := (Token.enclosers (.word word) before).count .not
      p + n ≤ maxNesting ∧ filter.root.height ≤ 2 * (p + 1) + n + 1 ∧ filter.root.height ≤ 515 ∧
        ∀ labels, filter.root.holdsWithin labels 515 = some (filter.selects labels) := by
  refine ⟨wellFounded_leads, ?_, ?_, ?_, ?_, ?_⟩
  · intro c h
    obtain ⟨before, r, -, -, hmeets⟩ := h.meets
    exact ⟨hmeets.depth_le, h.depth_eq⟩
  · exact (spends (whole (start ls))).taken
  · intro fault q hwhole
    obtain ⟨hfault, hdepth⟩ | ⟨hfault, hdepth⟩ := (whole_left ls).1 fault q hwhole
    · exact ⟨Nat.le_of_eq hdepth, iff_of_true hdepth hfault⟩
    · refine ⟨Nat.le_succ_of_le hdepth, iff_of_false (by omega) ?_⟩
      rintro ⟨position, hdeep⟩
      exact hfault position hdeep
  · intro e he
    have hne : ls ≠ [] := by
      rintro rfl
      cases he
    rw [← toExcept_whole hne] at he
    cases hwhole : (start ls).whole with
    | error fault q =>
      rw [hwhole] at he
      cases he
    | ok root q h =>
      obtain rfl := (whole_left ls).2 root q h hwhole
      rw [hwhole] at he
      cases he
      exact ⟨h, rfl⟩
  · intro filter hparse
    obtain ⟨-, d, hspells, hn, hroot⟩ := (parse_eq_ok_iff_exists_disjunction text filter).mp hparse
    obtain ⟨before, word, after, htokens, hheight⟩ := d.hasRoomFor_height
    rw [htokens] at hspells
    have hviable : IsViable (before ++ [.word word]) :=
      ⟨after, d, by rw [htokens, List.append_assoc, List.singleton_append], hn⟩
    have hdeep := hviable.length_enclosers_le
    have hsum := length_enclosers_eq (.word word) before
    rw [← hroot]
    refine ⟨before, word, after, hspells, ?_⟩
    have hbound : d.expr.height ≤ 515 := by
      rw [maxNesting] at hdeep
      omega
    refine ⟨by omega, by omega, hbound, fun labels => ?_⟩
    rw [Filter.selects, ← hroot]
    exact Expr.holdsWithin_of_height_le hbound

theorem Reading.foldlM_not {r : Reading} {l : Lexeme} (hl : l.token = .not)
    (hdue : r.termDue = true) {n : Nat} (hn : r.nesting + n ≤ maxNesting) :
    (List.replicate n l).foldlM Reading.read r = .ok { r with
      level := { r.level with negations := r.level.negations + n }, nesting := r.nesting + n } := by
  induction n generalizing r with
  | zero => rfl
  | succ n ih =>
    have hdeeper : r.deny.nesting + n ≤ maxNesting := by
      simp only [Reading.deny]
      omega
    rw [List.replicate_succ, Reading.foldlM_cons (Reading.read_not hdue hl (by omega)),
      ih (r := r.deny) hdue hdeeper]
    simp only [Reading.deny, Nat.add_assoc, Nat.add_comm 1]

/-- The derivation of `!(a, !b)`. -/
def neither : Disjunction :=
  .one (.one (.not (.primary (.parens (.more (.one (.primary (.word "a")))
    (.one (.one (.not (.primary (.word "b"))))))))))

theorem spells_neither : Spells "!(a, !b)".toList neither.tokens := by
  have hword (c : Char) (h : isWordChar c = true) : ∀ d ∈ [c], isWordChar d = true := by
    simpa using h
  have hcomma (cs : List Char) : ∀ d ∈ (',' :: cs).head?, isWordChar d = false := by
    simpa using (by decide +kernel : isWordChar ',' = false)
  have hclosing (cs : List Char) : ∀ d ∈ (')' :: cs).head?, isWordChar d = false := by
    simpa using (by decide +kernel : isWordChar ')' = false)
  refine .not (.opening (.word (c := 'a') (w := []) (hword _ (by decide)) (hcomma _) ?_))
  refine .comma (.blank (by decide) (.not ?_))
  exact .word (c := 'b') (w := []) (hword _ (by decide)) (hclosing _) (.closing .nil)

/-- A negation too many, and negations outside and inside of parentheses. -/
theorem recursion_is_bounded_negations :
    (∃ q, (start (List.replicate 257 ⟨0, .not⟩)).whole = .error (.tooDeep 0) q ∧ q.depth = 257) ∧
    ∃ ls filter, lexemes "!(a, !b)" = .ok ls ∧ Filter.parse "!(a, !b)" = .ok filter ∧
      filter.root.height = 4 ∧ (∃ h, (start ls).whole = .ok filter.root ⟨[], 0⟩ h) ∧
      (∃ c, Reaches (whole (start ls)) c ∧ c.parser.depth = 3 ∧
        c.parser.rest.map Lexeme.token = [.word "b", .closing]) ∧
      ∃ before word after, Spells "!(a, !b)".toList (before ++ .word word :: after) ∧
        4 ≤ 2 * ((Token.enclosers (.word word) before).count .opening + 1) +
          (Token.enclosers (.word word) before).count .not + 1 := by
  constructor
  · have hr := Reading.foldlM_not (r := Reading.start) (l := ⟨0, .not⟩) rfl rfl (n := 256)
      (by decide)
    have hmeets : Meets ⟨[], 256⟩ ⟨⟨[], [], 0 + 256⟩, [], 0 + 256, true⟩ true :=
      ⟨rfl, rfl, Nat.le_refl _⟩
    have hread := hmeets.read_tooDeep (l := ⟨0, .not⟩) (.inl rfl) (Nat.lt_succ_self _)
    have hfault : Expr.ofLexemes (List.replicate 256 ⟨0, .not⟩ ++ [⟨0, .not⟩]) =
        .error (.tooDeep 0) := ofLexemes_of_refused hr hread
    have hne : List.replicate 257 (⟨0, .not⟩ : Lexeme) ≠ [] :=
      (List.replicate_eq_nil_iff _).not.mpr (by decide)
    rw [← List.replicate_succ', ← toExcept_whole hne] at hfault
    obtain ⟨-, -, -, hdeep, -⟩ := recursion_is_bounded (List.replicate 257 ⟨0, .not⟩) ""
    cases hwhole : (start (List.replicate 257 ⟨0, .not⟩)).whole with
    | ok e q h =>
      rw [hwhole] at hfault
      cases hfault
    | error fault q =>
      rw [hwhole] at hfault
      cases hfault
      exact ⟨q, rfl, (hdeep _ q hwhole).2.mpr ⟨0, rfl⟩⟩
  · obtain ⟨ls, hls, htokens⟩ := (exists_lexemes_iff "!(a, !b)" neither.tokens).mpr spells_neither
    have hroot : Expr.ofLexemes ls = .ok neither.expr := neither.ofLexemes (by decide) htokens
    have hparse : Filter.parse "!(a, !b)" = .ok ⟨"!(a, !b)", neither.expr⟩ :=
      (parse_eq_ok_iff _ ⟨_, neither.expr⟩).mpr ⟨rfl, ls, hls, hroot⟩
    obtain ⟨-, hcounter, htaken, -, hexpr, hfilter⟩ := recursion_is_bounded ls "!(a, !b)"
    obtain ⟨h, hwhole⟩ := hexpr neither.expr hroot
    obtain ⟨before, word, after, hspells, -, hheight, -⟩ := hfilter _ hparse
    refine ⟨ls, _, hls, hparse, rfl, ⟨h, hwhole⟩, ?_, before, word, after, hspells, hheight⟩
    -- The word behind the second negation is taken three deep.
    let front : List Token := [.not, .opening, .word "a", .or, .not]
    have hsplit : ls.map Lexeme.token = front ++ [.word "b", .closing] := htokens
    obtain ⟨front', back, rfl, hfront, hback⟩ := List.map_eq_append_iff.mp hsplit
    obtain ⟨l, last, rfl, hl, hlast⟩ := List.map_eq_cons_iff.mp hback
    have hspent : (start (front' ++ l :: last)).whole.parser.rest.length ≤ last.length := by
      rw [hwhole]
      exact Nat.zero_le _
    obtain ⟨c, hreaches, hrest, htakes⟩ := htaken l last (List.suffix_append ..) hspent
    obtain ⟨-, before', hbefore, hdepth⟩ := hcounter c hreaches
    rw [hrest] at hbefore
    obtain rfl := List.append_cancel_right hbefore
    have hthree : ((Token.word "b").enclosers front).length = 3 := by
      have hreads : (placeless front).foldlM Reading.read Reading.start = .ok
          ⟨⟨[.label "a"], [], 1⟩, [(0, ⟨[], [], 1⟩)], 3, true⟩ := rfl
      have hreflects := Reading.Reflects.start.foldlM hreads
      rw [map_token_placeless, List.nil_append] at hreflects
      exact hreflects.length_enclosers_of_due rfl _
    refine ⟨c, hreaches, ?_, ?_⟩
    · rw [hdepth l last hrest htakes, hfront, hl, hthree]
    · rw [hrest, List.map_cons, hl, hlast]

end Texts

end Conformance.Label
