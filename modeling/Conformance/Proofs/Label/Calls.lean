import Conformance.Proofs.Label.Descent
import Mathlib.Data.List.Infix
import Mathlib.Logic.Relation

/-!
The calls that the recursive descent makes. A call leads to those that it makes itself, and a loop
to its next round. They come to an end, every lexeme that is used up is taken by one of them, and at
each of them the counter of the parser is the nesting of the reading of what comes before.
-/
namespace Conformance.Label.Parser

/-- A function of the parser, and where it is called. The loops are at their next round, `close` and
`finish` where the lexeme behind an expression is taken. -/
inductive Call where
  | whole (p : Parser)
  | disjunction (p : Parser)
  | alternatives (terms : List Expr) (p : Parser)
  | conjunction (p : Parser)
  | conjuncts (terms : List Expr) (p : Parser)
  | unary (p : Parser)
  | primary (p : Parser)
  | close (opening : Nat) (inner : Expr) (p : Parser)
  | finish (root : Expr) (p : Parser)

namespace Call

/-- The parser at the call. -/
def parser : Call → Parser
  | whole p | disjunction p | alternatives _ p | conjunction p | conjuncts _ p | unary p
  | primary p | close _ _ p | finish _ p => p

/-- The parser that the call leaves. -/
def left : Call → Parser
  | whole p => p.whole.parser
  | disjunction p => p.disjunction.parser
  | alternatives terms p => (Parser.alternatives terms p).parser
  | conjunction p => p.conjunction.parser
  | conjuncts terms p => (Parser.conjuncts terms p).parser
  | unary p => p.unary.parser
  | primary p => p.primary.parser
  | close opening inner p => (Parser.close opening inner p).parser
  | finish root p => (Parser.finish root p).parser

/-- Whether the call itself takes the token, if it comes next. -/
def Takes : Call → Token → Prop
  | whole _, _ | disjunction _, _ | conjunction _, _ => False
  | alternatives _ _, t => t = .or
  | conjuncts _ _, t => t = .and
  | unary _, t => t = .not
  | primary _, _ | close _ _ _, _ | finish _ _, _ => True

/-- The calls to which a call leads. -/
inductive Leads : Call → Call → Prop
  | root {p : Parser} : Leads (whole p) (disjunction p)
  | finish {p q : Parser} {root : Expr} {h : q.rest.length < p.rest.length}
      (hroot : p.disjunction = .ok root q h) : Leads (whole p) (finish root q)
  | firstAlternative {p : Parser} : Leads (disjunction p) (conjunction p)
  | alternatives {p q : Parser} {first : Expr} {h : q.rest.length < p.rest.length}
      (hfirst : p.conjunction = .ok first q h) : Leads (disjunction p) (alternatives [first] q)
  | alternative {terms : List Expr} {position depth : Nat} {rest : List Lexeme} :
      Leads (alternatives terms ⟨⟨position, .or⟩ :: rest, depth⟩) (conjunction ⟨rest, depth⟩)
  | nextAlternatives {terms : List Expr} {term : Expr} {position depth : Nat} {q : Parser}
      {rest : List Lexeme} {h : q.rest.length < rest.length}
      (hterm : Parser.conjunction ⟨rest, depth⟩ = .ok term q h) :
      Leads (alternatives terms ⟨⟨position, .or⟩ :: rest, depth⟩) (alternatives (term :: terms) q)
  | firstConjunct {p : Parser} : Leads (conjunction p) (unary p)
  | conjuncts {p q : Parser} {first : Expr} {h : q.rest.length < p.rest.length}
      (hfirst : p.unary = .ok first q h) : Leads (conjunction p) (conjuncts [first] q)
  | conjunct {terms : List Expr} {position depth : Nat} {rest : List Lexeme} :
      Leads (conjuncts terms ⟨⟨position, .and⟩ :: rest, depth⟩) (unary ⟨rest, depth⟩)
  | nextConjuncts {terms : List Expr} {term : Expr} {position depth : Nat} {q : Parser}
      {rest : List Lexeme} {h : q.rest.length < rest.length}
      (hterm : Parser.unary ⟨rest, depth⟩ = .ok term q h) :
      Leads (conjuncts terms ⟨⟨position, .and⟩ :: rest, depth⟩) (conjuncts (term :: terms) q)
  | operand {position depth : Nat} {rest : List Lexeme} (hn : depth < maxNesting) :
      Leads (unary ⟨⟨position, .not⟩ :: rest, depth⟩) (unary (descend ⟨rest, depth⟩))
  | primary {p : Parser} (hnot : p.peek ≠ some .not) : Leads (unary p) (primary p)
  | inner {position depth : Nat} {rest : List Lexeme} (hn : depth < maxNesting) :
      Leads (primary ⟨⟨position, .opening⟩ :: rest, depth⟩) (disjunction (descend ⟨rest, depth⟩))
  | close {inner : Expr} {position depth : Nat} {q : Parser} {rest : List Lexeme}
      {h : q.rest.length < rest.length} (hn : depth < maxNesting)
      (hinner : Parser.disjunction (descend ⟨rest, depth⟩) = .ok inner q h) :
      Leads (primary ⟨⟨position, .opening⟩ :: rest, depth⟩) (close position inner q.ascend)

/-- A call that is made in the course of another. -/
abbrev Reaches : Call → Call → Prop := Relation.ReflTransGen Leads

section Termination

/-- How far a call is from one that takes a lexeme. -/
def rank : Call → Nat
  | whole _ => 5
  | disjunction _ => 4
  | conjunction _ => 3
  | unary _ => 2
  | primary _ => 1
  | alternatives _ _ | conjuncts _ _ | close _ _ _ | finish _ _ => 0

/-- A call leaves fewer lexemes to the next, or is farther from taking one. -/
theorem Leads.lex {c c' : Call} (h : Leads c c') :
    Prod.Lex (· < ·) (· < ·) (c'.parser.rest.length, c'.rank) (c.parser.rest.length, c.rank) := by
  cases h with
  | root | firstAlternative | firstConjunct | primary _ => exact .right _ (Nat.lt_succ_self _)
  | finish _ | alternatives _ | conjuncts _ => exact .left _ _ ‹_›
  | alternative | conjunct | operand _ | inner _ => exact .left _ _ (Nat.lt_succ_self _)
  | nextAlternatives _ | nextConjuncts _ | close _ _ => exact .left _ _ (Nat.lt_succ_of_lt ‹_›)

theorem wellFounded_leads : WellFounded (fun c' c => Leads c c') :=
  Subrelation.wf Leads.lex (InvImage.wf (fun c : Call => (c.parser.rest.length, c.rank))
    (Prod.lex Nat.lt_wfRel Nat.lt_wfRel).wf)

end Termination

section Spending

variable {c d e : Call} {l : Lexeme}

/-- What a call uses up is the beginning of the lexemes, each of them taken by a call that it leads
to. -/
structure Spends (c : Call) : Prop where
  suffix : c.left.rest <:+ c.parser.rest
  taken : ∀ l after, l :: after <:+ c.parser.rest → c.left.rest.length ≤ after.length →
    ∃ d, Reaches c d ∧ d.parser.rest = l :: after ∧ d.Takes l.token

/-- Between a call and the first that it leads to, the call takes a lexeme at most. -/
inductive Begins (c d : Call) : Prop
  | same (h : Leads c d) (hrest : c.parser.rest = d.parser.rest)
  | takes {l : Lexeme} (h : Leads c d) (hrest : c.parser.rest = l :: d.parser.rest)
      (hl : c.Takes l.token)

theorem Begins.leads (h : Begins c d) : Leads c d := by
  cases h with
  | same h _ | takes h _ _ => exact h

theorem Begins.suffix (h : Begins c d) : d.parser.rest <:+ c.parser.rest := by
  cases h with
  | same _ hrest => rw [hrest]
  | takes _ hrest _ => exact hrest ▸ List.suffix_cons ..

/-- A lexeme that is not left to the first call has been taken before it. -/
theorem Begins.suffix_or_takes (h : Begins c d) {after : List Lexeme}
    (hafter : l :: after <:+ c.parser.rest) :
    l :: after <:+ d.parser.rest ∨ c.parser.rest = l :: after ∧ c.Takes l.token := by
  cases h with
  | same _ hrest => exact .inl (hrest ▸ hafter)
  | takes _ hrest hl =>
    rw [hrest] at hafter ⊢
    rcases List.suffix_cons_iff.mp hafter with heq | hlater
    · obtain ⟨rfl, rfl⟩ := List.cons.inj heq
      exact .inr ⟨rfl, hl⟩
    · exact .inl hlater

theorem Spends.of_idle (h : c.left.rest = c.parser.rest) : Spends c := by
  refine ⟨by rw [h], fun l after hafter hlength => ?_⟩
  have hle := hafter.length_le
  rw [h] at hlength
  exact absurd (Nat.le_trans hle hlength) (Nat.not_succ_le_self _)

theorem Spends.of_takes (h : c.parser.rest = l :: c.left.rest) (hl : c.Takes l.token) :
    Spends c := by
  refine ⟨h ▸ List.suffix_cons .., fun m after hafter hlength => ?_⟩
  rw [h] at hafter
  rcases List.suffix_cons_iff.mp hafter with heq | hlater
  · obtain ⟨rfl, rfl⟩ := List.cons.inj heq
    exact ⟨c, .refl, h, hl⟩
  · exact absurd (Nat.le_trans hlater.length_le hlength) (Nat.not_succ_le_self _)

/-- A call that ends with the first call that it makes. -/
theorem Spends.of_begins (h : Begins c d) (hd : Spends d) (hleft : c.left.rest = d.left.rest) :
    Spends c := by
  refine ⟨hleft ▸ hd.suffix.trans h.suffix, fun l after hafter hlength => ?_⟩
  rcases h.suffix_or_takes hafter with hlater | ⟨hrest, hl⟩
  · obtain ⟨e, hreaches, he⟩ := hd.taken l after hlater (hleft ▸ hlength)
    exact ⟨e, .head h.leads hreaches, he⟩
  · exact ⟨c, .refl, hrest, hl⟩

/-- A call that goes on where the first call that it makes has ended. -/
theorem Spends.of_begins_leads (h : Begins c d) (hd : Spends d) (hnext : Leads c e)
    (he : Spends e) (hrest : e.parser.rest = d.left.rest) (hleft : c.left.rest = e.left.rest) :
    Spends c := by
  have hsuffix : e.parser.rest <:+ c.parser.rest := hrest ▸ hd.suffix.trans h.suffix
  refine ⟨hleft ▸ he.suffix.trans hsuffix, fun l after hafter hlength => ?_⟩
  rcases Nat.lt_or_ge after.length e.parser.rest.length with hlt | hge
  · have hlater := List.suffix_of_suffix_length_le hafter hsuffix hlt
    obtain ⟨f, hreaches, hf⟩ := he.taken l after hlater (hleft ▸ hlength)
    exact ⟨f, .head hnext hreaches, hf⟩
  · rcases h.suffix_or_takes hafter with hlater | ⟨hrest', hl⟩
    · obtain ⟨f, hreaches, hf⟩ := hd.taken l after hlater (hrest ▸ hge)
      exact ⟨f, .head h.leads hreaches, hf⟩
    · exact ⟨c, .refl, hrest', hl⟩

/-- A call that fails with the first call that it makes, or goes on where this has ended. -/
theorem Spends.of_outcome {n : Nat} {o : Outcome n} (hd : Spends d) (h : Begins c d)
    (ho : d.left = o.parser) (herror : ∀ fault q, o = .error fault q → c.left = q)
    (hok : ∀ expr q hlt, o = .ok expr q hlt →
      ∃ e, Leads c e ∧ Spends e ∧ e.parser = q ∧ c.left = e.left) : Spends c := by
  cases houtcome : o with
  | error fault q =>
    refine hd.of_begins h ?_
    rw [herror fault q houtcome, ho, houtcome]
    rfl
  | ok expr q hlt =>
    obtain ⟨e, hnext, he, hparser, hleft⟩ := hok expr q hlt houtcome
    refine hd.of_begins_leads h hnext he ?_ (by rw [hleft])
    rw [hparser, ho, houtcome]
    rfl

end Spending

section Functions

variable {p : Parser} {terms : List Expr} {opening : Nat} {root : Expr}

@[simp]
theorem parser_weaken {m n : Nat} (o : Outcome m) (h : m ≤ n) :
    (o.weaken h).parser = o.parser := by
  cases o <;> rfl

theorem spends_whole (ih : ∀ {d}, Leads (whole p) d → Spends d) : Spends (whole p) := by
  refine (ih .root).of_outcome (.same .root rfl) (o := p.disjunction) rfl
    (fun fault q h => ?_) fun root q hlt h => ⟨_, .finish h, ih (.finish h), rfl, ?_⟩
  · simp only [left, Parser.whole, h, Outcome.parser]
  · simp only [left, Parser.whole, h, parser_weaken]

theorem spends_disjunction (ih : ∀ {d}, Leads (disjunction p) d → Spends d) :
    Spends (disjunction p) := by
  refine (ih .firstAlternative).of_outcome (.same .firstAlternative rfl) (o := p.conjunction) rfl
    (fun fault q h => ?_) fun first q hlt h => ⟨_, .alternatives h, ih (.alternatives h), rfl, ?_⟩
  · simp only [left, Parser.disjunction, h, Outcome.parser]
  · simp only [left, Parser.disjunction, h, parser_weaken]

theorem spends_alternatives (ih : ∀ {d}, Leads (alternatives terms p) d → Spends d) :
    Spends (alternatives terms p) := by
  by_cases hor : p.peek = some .or
  · obtain ⟨position, rest, hp, -⟩ := exists_of_peek hor
    generalize p.depth = depth at hp
    subst hp
    have hbegins : Begins (alternatives terms ⟨⟨position, .or⟩ :: rest, depth⟩)
        (conjunction ⟨rest, depth⟩) := .takes .alternative rfl rfl
    refine (ih .alternative).of_outcome hbegins (o := Parser.conjunction ⟨rest, depth⟩) rfl
      (fun fault q h => ?_)
      fun term q hlt h => ⟨_, .nextAlternatives h, ih (.nextAlternatives h), rfl, ?_⟩
    · simp only [left, Parser.alternatives, h, Outcome.parser]
    · simp only [left, Parser.alternatives, h, parser_weaken]
  · refine Spends.of_idle ?_
    rw [left, alternatives_of_peek_ne terms hor]
    rfl

theorem spends_conjunction (ih : ∀ {d}, Leads (conjunction p) d → Spends d) :
    Spends (conjunction p) := by
  refine (ih .firstConjunct).of_outcome (.same .firstConjunct rfl) (o := p.unary) rfl
    (fun fault q h => ?_) fun first q hlt h => ⟨_, .conjuncts h, ih (.conjuncts h), rfl, ?_⟩
  · simp only [left, Parser.conjunction, h, Outcome.parser]
  · simp only [left, Parser.conjunction, h, parser_weaken]

theorem spends_conjuncts (ih : ∀ {d}, Leads (conjuncts terms p) d → Spends d) :
    Spends (conjuncts terms p) := by
  by_cases hand : p.peek = some .and
  · obtain ⟨position, rest, hp, -⟩ := exists_of_peek hand
    generalize p.depth = depth at hp
    subst hp
    have hbegins : Begins (conjuncts terms ⟨⟨position, .and⟩ :: rest, depth⟩)
        (unary ⟨rest, depth⟩) := .takes .conjunct rfl rfl
    refine (ih .conjunct).of_outcome hbegins (o := Parser.unary ⟨rest, depth⟩) rfl
      (fun fault q h => ?_)
      fun term q hlt h => ⟨_, .nextConjuncts h, ih (.nextConjuncts h), rfl, ?_⟩
    · simp only [left, Parser.conjuncts, h, Outcome.parser]
    · simp only [left, Parser.conjuncts, h, parser_weaken]
  · refine Spends.of_idle ?_
    rw [left, conjuncts_of_peek_ne terms hand]
    rfl

theorem spends_unary (ih : ∀ {d}, Leads (unary p) d → Spends d) : Spends (unary p) := by
  by_cases hnot : p.peek = some .not
  · obtain ⟨position, rest, hp, -⟩ := exists_of_peek hnot
    generalize p.depth = depth at hp
    subst hp
    by_cases hdeep : maxNesting < (descend ⟨rest, depth⟩).depth
    · refine Spends.of_takes (l := ⟨position, .not⟩) ?_ rfl
      rw [left, Parser.unary, if_pos hdeep]
      rfl
    · have hoperand : Leads (unary ⟨⟨position, .not⟩ :: rest, depth⟩)
          (unary (descend ⟨rest, depth⟩)) := .operand (Nat.le_of_not_lt hdeep)
      refine (ih hoperand).of_begins (.takes hoperand rfl rfl) ?_
      rw [left, Parser.unary, if_neg hdeep, left]
      cases Parser.unary (descend ⟨rest, depth⟩) <;> rfl
  · refine (ih (.primary hnot)).of_begins (.same (.primary hnot) rfl) ?_
    rw [left, unary_of_peek_ne hnot, left]

theorem spends_primary (ih : ∀ {d}, Leads (primary p) d → Spends d) : Spends (primary p) := by
  by_cases hopening : p.peek = some .opening
  · obtain ⟨position, rest, hp, -⟩ := exists_of_peek hopening
    generalize p.depth = depth at hp
    subst hp
    by_cases hdeep : maxNesting < (descend ⟨rest, depth⟩).depth
    · refine Spends.of_takes (l := ⟨position, .opening⟩) ?_ trivial
      rw [left, Parser.primary, if_pos hdeep]
      rfl
    · have hn : depth < maxNesting := Nat.le_of_not_lt hdeep
      have hinner : Leads (primary ⟨⟨position, .opening⟩ :: rest, depth⟩)
          (disjunction (descend ⟨rest, depth⟩)) := .inner hn
      -- What follows the expression is read one less deep than the expression has been.
      cases h : Parser.disjunction (descend ⟨rest, depth⟩) with
      | error fault q =>
        refine (ih hinner).of_begins (.takes hinner rfl trivial) ?_
        simp only [left, Parser.primary, if_neg hdeep, h, Outcome.parser]
      | ok inner q hlt =>
        refine (ih hinner).of_begins_leads (.takes hinner rfl trivial) (.close hn h)
          (ih (.close hn h)) ?_ ?_
        · simp only [left, parser, h, Outcome.parser, ascend]
        · simp only [left, Parser.primary, if_neg hdeep, h, parser_weaken]
  · obtain ⟨_ | ⟨⟨position, t⟩, rest⟩, depth⟩ := p
    · refine Spends.of_idle ?_
      simp only [left, Parser.primary, Outcome.parser, parser]
    · refine Spends.of_takes (l := ⟨position, t⟩) ?_ trivial
      cases t with
      | opening => exact absurd rfl hopening
      | word _ | and | or | not | closing =>
        simp only [left, Parser.primary, Outcome.parser, parser]

theorem spends_close : Spends (close opening root p) := by
  obtain ⟨_ | ⟨⟨position, t⟩, rest⟩, depth⟩ := p
  · exact Spends.of_idle rfl
  · refine Spends.of_takes (l := ⟨position, t⟩) ?_ trivial
    cases t <;> rfl

theorem spends_finish : Spends (finish root p) := by
  obtain ⟨_ | ⟨⟨position, t⟩, rest⟩, depth⟩ := p
  · exact Spends.of_idle rfl
  · refine Spends.of_takes (l := ⟨position, t⟩) ?_ trivial
    cases t <;> rfl

theorem spends (c : Call) : Spends c := by
  induction c using wellFounded_leads.induction with
  | _ c ih =>
    cases c with
    | whole p => exact spends_whole fun h => ih _ h
    | disjunction p => exact spends_disjunction fun h => ih _ h
    | alternatives terms p => exact spends_alternatives fun h => ih _ h
    | conjunction p => exact spends_conjunction fun h => ih _ h
    | conjuncts terms p => exact spends_conjuncts fun h => ih _ h
    | unary p => exact spends_unary fun h => ih _ h
    | primary p => exact spends_primary fun h => ih _ h
    | close opening inner p => exact spends_close
    | finish root p => exact spends_finish

end Functions

section Meeting

/-- What a call finds: the reading of the lexemes before it is as deep as the parser, and what it
has read of its level is what the call has been handed. Behind the expression in a parenthesis the
parser has come back from it, and the reading has not yet read what closes it. -/
def Meets : Call → Reading → Prop
  | whole p, r => p.Meets r true ∧ r.level = .start ∧ r.enclosing = []
  | disjunction p, r => p.Meets r true ∧ r.level = .start
  | alternatives terms p, r =>
    p.Meets r false ∧ p.peek ≠ some .and ∧ r.level.negations = 0 ∧
      r.level.closeConjunction.disjuncts = terms
  | conjunction p, r => p.Meets r true ∧ r.level.conjuncts = [] ∧ r.level.negations = 0
  | conjuncts terms p, r => p.Meets r false ∧ r.level.negations = 0 ∧ r.level.conjuncts = terms
  | unary p, r => p.Meets r true
  | primary p, r => p.Meets r true
  | close opening _ p, r =>
    p.depth ≤ maxNesting ∧ r.termDue = false ∧ r.nesting = p.depth + 1 ∧ p.peek ≠ some .and ∧
      p.peek ≠ some .or ∧ ∃ outer enclosing, r.enclosing = (opening, outer) :: enclosing
  | finish _ p, r =>
    p.Meets r false ∧ p.peek ≠ some .and ∧ p.peek ≠ some .or ∧ r.enclosing = []

theorem Meets.depth_le {c : Call} {r : Reading} (h : c.Meets r) : c.parser.depth ≤ maxNesting := by
  cases c with
  | unary p | primary p => exact h.fits
  | close opening inner p => exact h.1
  | whole p | disjunction p | alternatives terms p | conjunction p | conjuncts terms p
  | finish root p => exact h.1.fits

variable {c d : Call} {r : Reading}

/-- From a call to the next, the reading reads what has been used up. -/
theorem Leads.meets (h : Leads c d) (hr : c.Meets r) :
    ∃ ls r', c.parser.rest = ls ++ d.parser.rest ∧ ls.foldlM Reading.read r = .ok r' ∧
      d.Meets r' := by
  cases h with
  | root => exact ⟨[], r, rfl, rfl, hr.1, hr.2.1⟩
  | @finish p q root _ hroot =>
    obtain ⟨hmeets, hstart, henclosing⟩ := hr
    have htracks := disjunction_tracks p r hmeets hstart
    rw [hroot] at htracks
    obtain ⟨hdepth, ls, r', hrest, hls, hand, hor, level, -, rfl⟩ := htracks
    exact ⟨ls, _, hrest, hls, hmeets.of_depth_eq rfl rfl hdepth, hand, hor, henclosing⟩
  | firstAlternative =>
    obtain ⟨hmeets, hstart⟩ := hr
    exact ⟨[], r, rfl, rfl, hmeets, by rw [hstart]; rfl, by rw [hstart]; rfl⟩
  | @alternatives p q first _ hfirst =>
    obtain ⟨hmeets, hstart⟩ := hr
    have htracks := conjunction_tracks p r hmeets (by rw [hstart]; rfl) (by rw [hstart]; rfl)
    rw [hfirst] at htracks
    obtain ⟨hdepth, ls, r', hrest, hls, hand, terms, hterm, rfl⟩ := htracks
    refine ⟨ls, _, hrest, hls, hmeets.of_depth_eq rfl rfl hdepth, hand, ?_, ?_⟩
    · rw [withConjuncts, hstart]
      rfl
    · rw [withConjuncts, hstart, hterm]
      rfl
  | @alternative terms position depth rest =>
    obtain ⟨hmeets, -, hzero, -⟩ := hr
    have hread := Reading.read_or (l := ⟨position, .or⟩) hmeets.termDue rfl
    exact ⟨[⟨position, .or⟩], _, rfl, Reading.foldlM_cons hread,
      ⟨rfl, hmeets.nesting, hmeets.fits⟩, rfl, hzero⟩
  | @nextAlternatives terms term position depth q rest _ hterm =>
    obtain ⟨hmeets, -, hzero, hterms⟩ := hr
    have hread := Reading.read_or (l := ⟨position, .or⟩) hmeets.termDue rfl
    have htracks := conjunction_tracks ⟨rest, depth⟩
      { r with level := r.level.closeConjunction, termDue := true }
      ⟨rfl, hmeets.nesting, hmeets.fits⟩ rfl hzero
    rw [hterm] at htracks
    obtain ⟨hdepth, ls, r', hrest, hls, hand, conjuncts, hconjuncts, rfl⟩ := htracks
    refine ⟨⟨position, .or⟩ :: ls, _, congrArg (List.cons _) hrest,
      (Reading.foldlM_cons hread).trans hls, hmeets.of_depth_eq rfl rfl hdepth, hand, hzero, ?_⟩
    rw [hconjuncts, ← hterms]
    rfl
  | firstConjunct => exact ⟨[], r, rfl, rfl, hr.1⟩
  | @conjuncts p q first _ hfirst =>
    obtain ⟨hmeets, hempty, hzero⟩ := hr
    have htracks := unary_tracks p r hmeets
    rw [hfirst] at htracks
    obtain ⟨hdepth, ls, r', hrest, hls, rfl⟩ := htracks
    rw [addTerm_eq_withConjuncts hzero, hempty] at hls
    exact ⟨ls, _, hrest, hls, hmeets.of_depth_eq rfl rfl hdepth, hzero, rfl⟩
  | @conjunct terms position depth rest =>
    obtain ⟨hmeets, -, -⟩ := hr
    have hread := Reading.read_and (l := ⟨position, .and⟩) hmeets.termDue rfl
    exact ⟨[⟨position, .and⟩], _, rfl, Reading.foldlM_cons hread, rfl, hmeets.nesting, hmeets.fits⟩
  | @nextConjuncts terms term position depth q rest _ hterm =>
    obtain ⟨hmeets, hzero, hterms⟩ := hr
    have hread := Reading.read_and (l := ⟨position, .and⟩) hmeets.termDue rfl
    have htracks := unary_tracks ⟨rest, depth⟩ { r with termDue := true }
      ⟨rfl, hmeets.nesting, hmeets.fits⟩
    rw [hterm] at htracks
    obtain ⟨hdepth, ls, r', hrest, hls, rfl⟩ := htracks
    rw [addTerm_eq_withConjuncts (r := { r with termDue := true }) hzero] at hls
    exact ⟨⟨position, .and⟩ :: ls, _, congrArg (List.cons _) hrest,
      (Reading.foldlM_cons hread).trans hls, hmeets.of_depth_eq rfl rfl hdepth, hzero,
      congrArg (List.cons term) hterms⟩
  | @operand position depth rest hn =>
    have hread := Reading.read_not (l := ⟨position, .not⟩) hr.termDue rfl (hr.nesting ▸ hn)
    exact ⟨[⟨position, .not⟩], _, rfl, Reading.foldlM_cons hread, hr.termDue,
      congrArg (· + 1) hr.nesting, hn⟩
  | primary _ => exact ⟨[], r, rfl, rfl, hr⟩
  | @inner position depth rest hn =>
    have hread := Reading.read_opening (l := ⟨position, .opening⟩) hr.termDue rfl (hr.nesting ▸ hn)
    exact ⟨[⟨position, .opening⟩], _, rfl, Reading.foldlM_cons hread,
      ⟨rfl, congrArg (· + 1) hr.nesting, hn⟩, rfl⟩
  | @close inner position depth q rest _ hn hinner =>
    have hread := Reading.read_opening (l := ⟨position, .opening⟩) hr.termDue rfl (hr.nesting ▸ hn)
    have htracks := disjunction_tracks (descend ⟨rest, depth⟩) (r.enter position)
      ⟨rfl, congrArg (· + 1) hr.nesting, hn⟩ rfl
    rw [hinner] at htracks
    obtain ⟨hdepth, ls, r', hrest, hls, hand, hor, level, -, rfl⟩ := htracks
    have hup : q.ascend.depth = depth := congrArg (· - 1) hdepth
    refine ⟨⟨position, .opening⟩ :: ls, _, congrArg (List.cons _) hrest,
      (Reading.foldlM_cons hread).trans hls, ?_⟩
    refine ⟨hup ▸ Nat.le_of_lt hn, rfl, ?_, hand, hor, r.level, r.enclosing, rfl⟩
    rw [hup]
    exact congrArg (· + 1) hr.nesting

/-- Before each call there is a reading of the lexemes that have been used up. -/
theorem Reaches.meets {ls : List Lexeme} (h : Reaches (whole (start ls)) c) :
    ∃ before r, ls = before ++ c.parser.rest ∧ before.foldlM Reading.read Reading.start = .ok r ∧
      c.Meets r := by
  induction h with
  | refl => exact ⟨[], Reading.start, rfl, rfl, ⟨rfl, rfl, Nat.zero_le _⟩, rfl, rfl⟩
  | tail _ hleads ih =>
    obtain ⟨before, r, hbefore, hr, hmeets⟩ := ih
    obtain ⟨used, r', hused, hr', hmeets'⟩ := hleads.meets hmeets
    refine ⟨before ++ used, r', ?_, ?_, hmeets'⟩
    · rw [hbefore, hused, List.append_assoc]
    · rw [Reading.foldlM_append hr, hr']

end Meeting

end Call

end Conformance.Label.Parser
