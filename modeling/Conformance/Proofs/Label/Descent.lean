import Conformance.Label.Parser
import Conformance.Proofs.Label.Reading

/-!
The recursive descent and the reading token by token agree. Where a function of the parser is
called, the lexemes before have been read; what it returns is what reading makes of the lexemes
that it has used up, and its fault is the one at which reading stops.
-/
namespace Conformance.Label

namespace Parser

/-- The token that comes next. -/
def peek (p : Parser) : Option Token := p.rest.head?.map Lexeme.token

/-- The counter passes the bound at the fault that says so, by one, and at no other. -/
def FaultDepth (fault : Fault) (depth : Nat) : Prop :=
  (∃ position, fault = .tooDeep position) ∧ depth = maxNesting + 1 ∨
    (∀ position, fault ≠ .tooDeep position) ∧ depth ≤ maxNesting

/-- Before the lexemes of the parser the reading is as deep as the parser. -/
structure Meets (p : Parser) (r : Reading) (due : Bool) : Prop where
  termDue : r.termDue = due
  nesting : r.nesting = p.depth
  fits : p.depth ≤ maxNesting

/-- A call at `p` does what the reading `r` does there: they come to the same fault, or the reading
has read what the call has used up. -/
def Tracks (p : Parser) (r : Reading) (ends : Expr → Parser → Reading → Prop) {n : Nat} :
    Outcome n → Prop
  | .ok e q _ => q.depth = p.depth ∧ ∃ ls r', p.rest = ls ++ q.rest ∧
      ls.foldlM Reading.read r = .ok r' ∧ ends e q r'
  | .error fault q => r.toEnd p.rest = .error fault ∧ FaultDepth fault q.depth

variable {p q : Parser} {r r' : Reading} {m n : Nat} {l : Lexeme} {ls ms rest : List Lexeme}
  {ends : Expr → Parser → Reading → Prop}

/-- Where the parser has come back to its depth, so has the reading. -/
theorem Meets.of_depth_eq {due due' : Bool} (h : Meets p r due) (hdue : r'.termDue = due')
    (hnesting : r'.nesting = r.nesting) (hdepth : q.depth = p.depth) : Meets q r' due' :=
  ⟨hdue, hnesting.trans (h.nesting.trans hdepth.symm), hdepth ▸ h.fits⟩

theorem Meets.nesting_lt {due : Bool} (h : Meets p r due)
    (hdeep : ¬maxNesting < p.depth + 1) : r.nesting < maxNesting := by
  rw [h.nesting]
  exact Nat.le_of_not_lt hdeep

theorem Meets.faultDepth {due : Bool} (h : Meets p r due) {position : Nat}
    (hdeep : maxNesting < p.depth + 1) : FaultDepth (.tooDeep position) (p.depth + 1) :=
  .inl ⟨⟨position, rfl⟩, Nat.le_antisymm (Nat.succ_le_succ h.fits) hdeep⟩

theorem Meets.read_tooDeep (h : Meets p r true) (hl : l.token = .not ∨ l.token = .opening)
    (hdeep : maxNesting < p.depth + 1) : r.read l = .error (.tooDeep l.position) := by
  have hn : ¬r.nesting < maxNesting := by
    rw [h.nesting]
    exact Nat.not_lt.mpr (Nat.le_of_lt_succ hdeep)
  rw [Reading.read_due h.termDue, Reading.readTerm]
  rcases hl with hl | hl <;> rw [hl] <;> exact if_neg hn

theorem toEnd_append (h : ls.foldlM Reading.read r = .ok r') (ms : List Lexeme) :
    r.toEnd (ls ++ ms) = r'.toEnd ms := by
  rw [Reading.toEnd, Reading.foldlM_append h, Reading.toEnd]

theorem toEnd_cons (h : r.read l = .ok r') (ls : List Lexeme) :
    r.toEnd (l :: ls) = r'.toEnd ls := by
  rw [Reading.toEnd, Reading.foldlM_cons h, Reading.toEnd]

theorem toEnd_of_refused {fault : Fault} (h : r.read l = .error fault) (ls : List Lexeme) :
    r.toEnd (l :: ls) = .error fault := by
  rw [Reading.toEnd, List.foldlM_cons, h]
  rfl

/-- What is called behind lexemes that have been read goes on with the reading of them. -/
theorem Tracks.of_append {o : Outcome m} (h : Tracks q r' ends o) (hle : m ≤ n)
    (hrest : p.rest = ls ++ q.rest) (hls : ls.foldlM Reading.read r = .ok r')
    (hdepth : q.depth = p.depth) : Tracks p r ends (o.weaken hle) := by
  cases o with
  | error fault s =>
    obtain ⟨hfault, hcounter⟩ := h
    refine ⟨?_, hcounter⟩
    rw [hrest, toEnd_append hls, hfault]
  | ok e s hs =>
    obtain ⟨hs, ms, r'', hms, hread, hends⟩ := h
    refine ⟨hs.trans hdepth, ls ++ ms, r'', ?_, ?_, hends⟩
    · rw [hrest, hms, List.append_assoc]
    · rw [Reading.foldlM_append hls, hread]

/-- The reading with the terms as the conjuncts of its level. -/
def withConjuncts (r : Reading) (terms : List Expr) : Reading :=
  { r with level := { r.level with conjuncts := terms }, termDue := false }

/-- With no negation waiting, a term is one more conjunct. -/
theorem addTerm_eq_withConjuncts (hzero : r.level.negations = 0) (e : Expr) :
    r.addTerm e = withConjuncts r (e :: r.level.conjuncts) := by
  simp only [Reading.addTerm, Level.addTerm, withConjuncts, hzero, Expr.negate, Nat.sub_zero]

/-- What a chain of conjuncts has read, and that no conjunct follows. -/
def EndsConjunction (r : Reading) (e : Expr) (q : Parser) (r' : Reading) : Prop :=
  q.peek ≠ some .and ∧ ∃ terms, e = Expr.conjunction terms.reverse ∧ r' = withConjuncts r terms

/-- What a chain of alternatives has read, and that it does not go on. -/
def EndsDisjunction (r : Reading) (e : Expr) (q : Parser) (r' : Reading) : Prop :=
  q.peek ≠ some .and ∧ q.peek ≠ some .or ∧
    ∃ level, level.expr = e ∧ r' = { r with level := level, termDue := false }

theorem exists_of_peek {t : Token} (h : p.peek = some t) :
    ∃ position rest, p = ⟨⟨position, t⟩ :: rest, p.depth⟩ ∧ rest.length < p.rest.length := by
  obtain ⟨_ | ⟨⟨position, _⟩, rest⟩, depth⟩ := p
  · cases h
  · obtain rfl := Option.some.inj h
    exact ⟨position, rest, rfl, Nat.lt_succ_self _⟩

theorem alternatives_of_peek_ne (terms : List Expr) (h : p.peek ≠ some .or) :
    alternatives terms p = .ok (.disjunction terms.reverse) p (Nat.lt_succ_self _) := by
  rw [alternatives.eq_def]
  split
  · exact absurd rfl h
  · rfl

theorem conjuncts_of_peek_ne (terms : List Expr) (h : p.peek ≠ some .and) :
    conjuncts terms p = .ok (.conjunction terms.reverse) p (Nat.lt_succ_self _) := by
  rw [conjuncts.eq_def]
  split
  · exact absurd rfl h
  · rfl

theorem unary_of_peek_ne (h : p.peek ≠ some .not) : unary p = primary p := by
  rw [unary.eq_def]
  split
  · exact absurd rfl h
  · rfl

theorem close_tracks {opening : Nat} {inner : Expr} {outer : Level}
    {enclosing : List (Nat × Level)} (hdone : r.termDue = false)
    (hand : p.peek ≠ some .and) (hor : p.peek ≠ some .or)
    (hr : r.enclosing = (opening, outer) :: enclosing) (hexpr : r.level.expr = inner)
    (hfits : p.depth ≤ maxNesting) :
    Tracks p r (fun e _ r' =>
      r' = Reading.addTerm ⟨outer, enclosing, r.nesting - 1, true⟩ e) (close opening inner p) := by
  obtain ⟨rest, p.depth⟩ := p
  cases rest with
  | nil =>
    refine ⟨?_, .inr ⟨nofun, hfits⟩⟩
    simp [Reading.toEnd, Reading.finish, hdone, hr, bind, Except.bind, pure, Except.pure]
  | cons l rest =>
    obtain ⟨position, t⟩ := l
    cases t with
    | closing =>
      refine ⟨rfl, [⟨position, .closing⟩], _, rfl, ?_, rfl⟩
      rw [Reading.foldlM_cons (Reading.read_closing hdone rfl hr), hexpr]
      rfl
    | and => exact absurd rfl hand
    | or => exact absurd rfl hor
    | word _ | not | opening =>
      refine ⟨toEnd_of_refused ?_ _, .inr ⟨nofun, hfits⟩⟩
      rw [Reading.read_done hdone]
      rfl

mutual
theorem disjunction_tracks (p : Parser) (r : Reading) (h : Meets p r true)
    (hstart : r.level = .start) : Tracks p r (EndsDisjunction r) (disjunction p) := by
  have hfirst := conjunction_tracks p r h (by rw [hstart]; rfl) (by rw [hstart]; rfl)
  rw [disjunction]
  split
  · next fault q heq => rwa [heq] at hfirst
  · next first q hlt heq =>
    rw [heq] at hfirst
    obtain ⟨hdepth, ls, r', hrest, hls, hand, terms, hterm, rfl⟩ := hfirst
    refine Tracks.of_append ?_ hlt hrest hls hdepth
    refine alternatives_tracks [first] q _ (h.of_depth_eq rfl rfl hdepth) hand
      (by rw [withConjuncts, hstart]; rfl) ?_
    rw [withConjuncts, hstart, hterm]
    rfl
termination_by (p.rest.length, 4)

theorem alternatives_tracks (terms : List Expr) (p : Parser) (r : Reading) (h : Meets p r false)
    (hand : p.peek ≠ some .and) (hzero : r.level.negations = 0)
    (hterms : r.level.closeConjunction.disjuncts = terms) :
    Tracks p r (EndsDisjunction r) (alternatives terms p) := by
  by_cases hor : p.peek = some .or
  · obtain ⟨position, rest, hp, hshorter⟩ := exists_of_peek hor
    rw [hp, alternatives]
    let r' : Reading := { r with level := r.level.closeConjunction, termDue := true }
    have hread : r.read ⟨position, .or⟩ = .ok r' := Reading.read_or h.termDue rfl
    have hterm := conjunction_tracks ⟨rest, p.depth⟩ r' ⟨rfl, h.nesting, h.fits⟩ rfl hzero
    split
    · next fault q heq =>
      rw [heq] at hterm
      exact ⟨(toEnd_cons hread rest).trans hterm.1, hterm.2⟩
    · next term q hlt heq =>
      rw [heq] at hterm
      obtain ⟨hdepth, ls, r'', hrest, hls, hand, conjuncts, hconjuncts, rfl⟩ := hterm
      have hlt' := Nat.lt_trans hlt hshorter
      refine Tracks.of_append ?_ _ (congrArg (List.cons _) hrest)
        ((Reading.foldlM_cons hread).trans hls) hdepth
      refine alternatives_tracks (term :: terms) q _ (h.of_depth_eq rfl rfl hdepth) hand hzero ?_
      rw [hconjuncts, ← hterms]
      rfl
  · rw [alternatives_of_peek_ne terms hor]
    refine ⟨rfl, [], r, rfl, rfl, hand, hor, r.level, ?_, ?_⟩
    · rw [Level.expr, hterms]
    · rw [← h.termDue]
termination_by (p.rest.length, 0)

theorem conjunction_tracks (p : Parser) (r : Reading) (h : Meets p r true)
    (hempty : r.level.conjuncts = []) (hzero : r.level.negations = 0) :
    Tracks p r (EndsConjunction r) (conjunction p) := by
  have hfirst := unary_tracks p r h
  rw [conjunction]
  split
  · next fault q heq => rwa [heq] at hfirst
  · next first q hlt heq =>
    rw [heq] at hfirst
    obtain ⟨hdepth, ls, r', hrest, hls, rfl⟩ := hfirst
    rw [addTerm_eq_withConjuncts hzero, hempty] at hls
    refine Tracks.of_append ?_ hlt hrest hls hdepth
    exact conjuncts_tracks [first] q _ (h.of_depth_eq rfl rfl hdepth) hzero rfl
termination_by (p.rest.length, 3)

theorem conjuncts_tracks (terms : List Expr) (p : Parser) (r : Reading) (h : Meets p r false)
    (hzero : r.level.negations = 0) (hterms : r.level.conjuncts = terms) :
    Tracks p r (EndsConjunction r) (conjuncts terms p) := by
  by_cases hand : p.peek = some .and
  · obtain ⟨position, rest, hp, hshorter⟩ := exists_of_peek hand
    rw [hp, conjuncts]
    let r' : Reading := { r with termDue := true }
    have hread : r.read ⟨position, .and⟩ = .ok r' := Reading.read_and h.termDue rfl
    have hterm := unary_tracks ⟨rest, p.depth⟩ r' ⟨rfl, h.nesting, h.fits⟩
    split
    · next fault q heq =>
      rw [heq] at hterm
      exact ⟨(toEnd_cons hread rest).trans hterm.1, hterm.2⟩
    · next term q hlt heq =>
      rw [heq] at hterm
      obtain ⟨hdepth, ls, r'', hrest, hls, rfl⟩ := hterm
      rw [addTerm_eq_withConjuncts (r := r') hzero] at hls
      have hlt' := Nat.lt_trans hlt hshorter
      refine Tracks.of_append ?_ _ (congrArg (List.cons _) hrest)
        ((Reading.foldlM_cons hread).trans hls) hdepth
      exact conjuncts_tracks (term :: terms) q _ (h.of_depth_eq rfl rfl hdepth) hzero
        (congrArg (List.cons term) hterms)
  · rw [conjuncts_of_peek_ne terms hand]
    refine ⟨rfl, [], r, rfl, rfl, hand, terms, rfl, ?_⟩
    rw [withConjuncts, ← hterms, ← h.termDue]
termination_by (p.rest.length, 0)

theorem unary_tracks (p : Parser) (r : Reading) (h : Meets p r true) :
    Tracks p r (fun e _ r' => r' = r.addTerm e) (unary p) := by
  by_cases hnot : p.peek = some .not
  · obtain ⟨position, rest, hp, hshorter⟩ := exists_of_peek hnot
    rw [hp, unary]
    split
    · next hdeep =>
      exact ⟨toEnd_of_refused (h.read_tooDeep (.inl rfl) hdeep) rest, h.faultDepth hdeep⟩
    · next hdeep =>
      have hread : r.read ⟨position, .not⟩ = .ok r.deny :=
        Reading.read_not h.termDue rfl (h.nesting_lt hdeep)
      have hinner := unary_tracks (descend ⟨rest, p.depth⟩) r.deny
        ⟨h.termDue, congrArg (· + 1) h.nesting, Nat.le_of_not_lt hdeep⟩
      split
      · next fault q heq =>
        rw [heq] at hinner
        exact ⟨(toEnd_cons hread rest).trans hinner.1, hinner.2⟩
      · next inner q hlt heq =>
        rw [heq] at hinner
        obtain ⟨hdepth, ls, r'', hrest, hls, rfl⟩ := hinner
        rw [Reading.addTerm_deny] at hls
        refine ⟨?_, ⟨position, .not⟩ :: ls, _, congrArg (List.cons _) hrest,
          (Reading.foldlM_cons hread).trans hls, rfl⟩
        rw [ascend, hdepth]
        rfl
  · rw [unary_of_peek_ne hnot]
    exact primary_tracks p r h hnot
termination_by (p.rest.length, 2)

theorem primary_tracks (p : Parser) (r : Reading) (h : Meets p r true)
    (hnot : p.peek ≠ some .not) :
    Tracks p r (fun e _ r' => r' = r.addTerm e) (primary p) := by
  by_cases hopening : p.peek = some .opening
  · obtain ⟨position, rest, hp, hshorter⟩ := exists_of_peek hopening
    rw [hp, primary]
    split
    · next hdeep =>
      exact ⟨toEnd_of_refused (h.read_tooDeep (.inr rfl) hdeep) rest, h.faultDepth hdeep⟩
    · next hdeep =>
      have hn := h.nesting_lt hdeep
      have hread : r.read ⟨position, .opening⟩ = .ok (r.enter position) :=
        Reading.read_opening h.termDue rfl hn
      have hinner := disjunction_tracks (descend ⟨rest, p.depth⟩) (r.enter position)
        ⟨rfl, congrArg (· + 1) h.nesting, Nat.le_of_not_lt hdeep⟩ rfl
      split
      · next fault q heq =>
        rw [heq] at hinner
        exact ⟨(toEnd_cons hread rest).trans hinner.1, hinner.2⟩
      · next inner q hlt heq =>
        rw [heq] at hinner
        obtain ⟨hdepth, ls, r', hrest, hls, hand, hor, level, hlevel, rfl⟩ := hinner
        have hup : q.ascend.depth = p.depth := congrArg (· - 1) hdepth
        have hclose := close_tracks (p := q.ascend)
          (r := { r.enter position with level := level, termDue := false }) rfl hand hor rfl
          hlevel (hup ▸ h.fits)
        have hsame : (⟨r.level, r.enclosing, r.nesting + 1 - 1, true⟩ : Reading) = r := by
          rw [← h.termDue]
          rfl
        simp only [Reading.enter, hsame] at hclose
        exact hclose.of_append _ (congrArg (List.cons _) hrest)
          ((Reading.foldlM_cons hread).trans hls) hup
  · obtain ⟨_ | ⟨⟨position, t⟩, rest⟩, depth⟩ := p
    · rw [primary]
      refine ⟨?_, .inr ⟨nofun, h.fits⟩⟩
      rw [Reading.toEnd, List.foldlM_nil]
      exact if_pos h.termDue
    · cases t with
      | opening => exact absurd rfl hopening
      | word text =>
        rw [primary]
        exact ⟨rfl, [⟨position, .word text⟩], _, rfl,
          Reading.foldlM_cons (Reading.read_word h.termDue rfl), rfl⟩
      | not => exact absurd rfl hnot
      | and | or | closing =>
        rw [primary]
        · refine ⟨toEnd_of_refused ?_ _, .inr ⟨nofun, h.fits⟩⟩
          rw [Reading.read_due h.termDue]
          rfl
        all_goals nofun
termination_by (p.rest.length, 1)
end

theorem finish_tracks {root : Expr} (hdone : r.termDue = false) (hand : p.peek ≠ some .and)
    (hor : p.peek ≠ some .or) (henclosing : r.enclosing = []) (hexpr : r.level.expr = root)
    (hfits : p.depth ≤ maxNesting) :
    Tracks p r (fun e q r' => q.rest = [] ∧ r'.finish = .ok e) (finish root p) := by
  obtain ⟨_ | ⟨⟨position, t⟩, rest⟩, depth⟩ := p
  · refine ⟨rfl, [], r, rfl, rfl, rfl, ?_⟩
    simp only [Reading.finish, hdone, henclosing, hexpr, Bool.false_eq_true, if_false]
  · cases t with
    | and => exact absurd rfl hand
    | or => exact absurd rfl hor
    | word _ | not | opening | closing =>
      refine ⟨toEnd_of_refused ?_ _, .inr ⟨by simp, hfits⟩⟩
      rw [Reading.read_done hdone, Reading.readConnective, henclosing]

/-- A whole expression is what reading has read at the end of the lexemes. -/
theorem whole_tracks (ls : List Lexeme) :
    Tracks (start ls) Reading.start (fun e q r' => q.rest = [] ∧ r'.finish = .ok e)
      (start ls).whole := by
  have hroot := disjunction_tracks (start ls) Reading.start ⟨rfl, rfl, Nat.zero_le _⟩ rfl
  rw [whole]
  split
  · next fault q heq => rwa [heq] at hroot
  · next root q hlt heq =>
    rw [heq] at hroot
    obtain ⟨hdepth, ms, r', hrest, hms, hand, hor, level, hlevel, rfl⟩ := hroot
    have hend := finish_tracks (r := { Reading.start with level := level, termDue := false }) rfl
      hand hor rfl hlevel (hdepth ▸ Nat.zero_le _)
    exact hend.of_append hlt hrest hms hdepth

end Parser

/-- The recursive descent finds what reading token by token finds. -/
theorem Expr.ofLexemes_eq_toEnd {ls : List Lexeme} (hne : ls ≠ []) :
    Expr.ofLexemes ls = Reading.start.toEnd ls := by
  have hwhole := Parser.whole_tracks ls
  rw [Expr.ofLexemes, List.isEmpty_eq_false_iff.mpr hne, if_neg Bool.false_ne_true]
  cases h : (Parser.start ls).whole with
  | error fault q =>
    rw [h] at hwhole
    exact hwhole.1.symm
  | ok root q hlt =>
    rw [h] at hwhole
    obtain ⟨-, ms, r, hrest, hms, hempty, hroot⟩ := hwhole
    obtain rfl : ls = ms := by rwa [hempty, List.append_nil] at hrest
    rw [Reading.toEnd, hms]
    exact hroot.symm

end Conformance.Label
