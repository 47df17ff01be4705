import Conformance.Label.Expr
import Conformance.Label.Token

/-!
Label expressions token by token, without recursion. What has been read so far is kept as the terms
of the innermost open parenthesis and, around it, those of each enclosing one, so that a token needs
no look-ahead and every fault is found at the first token that no expression can continue.
-/
namespace Conformance.Label

/-- The terms read at one level of parentheses, the latest first. -/
structure Level where
  disjuncts : List Expr
  conjuncts : List Expr
  /-- The negations read since the last term, which wait for theirs. -/
  negations : Nat

namespace Level

def start : Level := ⟨[], [], 0⟩

/-- The pending negations take the term. -/
def addTerm (level : Level) (term : Expr) : Level :=
  { level with conjuncts := Expr.negate level.negations term :: level.conjuncts, negations := 0 }

def closeConjunction (level : Level) : Level :=
  { level with
    disjuncts := Expr.conjunction level.conjuncts.reverse :: level.disjuncts, conjuncts := [] }

def expr (level : Level) : Expr := Expr.disjunction level.closeConjunction.disjuncts.reverse

end Level

structure Reading where
  level : Level
  /-- The levels around the current one, each with the position of the parenthesis inside it. -/
  enclosing : List (Nat × Level)
  /-- The negations and parentheses around the next token. -/
  nesting : Nat
  /-- Whether a term has to come next, rather than a connective. -/
  termDue : Bool

namespace Reading

def start : Reading := ⟨.start, [], 0, true⟩

def addTerm (r : Reading) (term : Expr) : Reading :=
  { r with
    level := r.level.addTerm term, nesting := r.nesting - r.level.negations, termDue := false }

def readTerm (r : Reading) (lexeme : Lexeme) : Except Fault Reading :=
  match lexeme.token with
  | .word text => .ok (r.addTerm (.label text))
  | .not =>
    if r.nesting < maxNesting then
      .ok { r with
        level := { r.level with negations := r.level.negations + 1 }, nesting := r.nesting + 1 }
    else .error (.tooDeep lexeme.position)
  | .opening =>
    if r.nesting < maxNesting then
      .ok { r with
        level := .start, enclosing := (lexeme.position, r.level) :: r.enclosing,
        nesting := r.nesting + 1 }
    else .error (.tooDeep lexeme.position)
  | token => .error (.unexpectedToken lexeme.position token)

def readConnective (r : Reading) (lexeme : Lexeme) : Except Fault Reading :=
  match lexeme.token, r.enclosing with
  | .and, _ => .ok { r with termDue := true }
  | .or, _ => .ok { r with level := r.level.closeConjunction, termDue := true }
  | .closing, (_, outer) :: enclosing =>
    .ok (addTerm ⟨outer, enclosing, r.nesting - 1, true⟩ r.level.expr)
  | .closing, [] => .error (.unbalancedParen lexeme.position)
  | token, _ => .error (.unexpectedToken lexeme.position token)

def read (r : Reading) (lexeme : Lexeme) : Except Fault Reading :=
  if r.termDue then r.readTerm lexeme else r.readConnective lexeme

def finish (r : Reading) : Except Fault Expr :=
  if r.termDue then .error .unexpectedEnd
  else match r.enclosing with
    | [] => .ok r.level.expr
    | (position, _) :: _ => .error (.unbalancedParen position)

/-- What comes of the lexemes, read up to the last of them. -/
def toEnd (r : Reading) (ls : List Lexeme) : Except Fault Expr := do
  let r ← ls.foldlM read r
  r.finish

theorem foldlM_cons {r r' : Reading} {l : Lexeme} {ls : List Lexeme} (h : r.read l = .ok r') :
    (l :: ls).foldlM read r = ls.foldlM read r' := by
  rw [List.foldlM_cons, h]
  rfl

theorem foldlM_append {r r' : Reading} {ls ms : List Lexeme}
    (h : ls.foldlM read r = .ok r') : (ls ++ ms).foldlM read r = ms.foldlM read r' := by
  rw [List.foldlM_append, h]
  rfl

theorem exists_of_foldlM_cons {r r' : Reading} {l : Lexeme} {ls : List Lexeme}
    (h : (l :: ls).foldlM read r = .ok r') :
    ∃ next, r.read l = .ok next ∧ ls.foldlM read next = .ok r' := by
  cases hl : r.read l with
  | error fault =>
    rw [List.foldlM_cons, hl] at h
    cases h
  | ok next => exact ⟨next, rfl, foldlM_cons hl ▸ h⟩

theorem exists_of_foldlM_append {r r' : Reading} {ls ms : List Lexeme}
    (h : (ls ++ ms).foldlM read r = .ok r') :
    ∃ next, ls.foldlM read r = .ok next ∧ ms.foldlM read next = .ok r' := by
  cases hls : ls.foldlM read r with
  | error fault =>
    rw [List.foldlM_append, hls] at h
    cases h
  | ok next => exact ⟨next, rfl, foldlM_append hls ▸ h⟩

theorem read_due {r : Reading} {l : Lexeme} (h : r.termDue = true) : r.read l = r.readTerm l := by
  simp [read, h]

theorem read_done {r : Reading} {l : Lexeme} (h : r.termDue = false) :
    r.read l = r.readConnective l := by
  simp [read, h]

theorem read_word {r : Reading} {l : Lexeme} {text : String} (hdue : r.termDue = true)
    (hl : l.token = .word text) : r.read l = .ok (r.addTerm (.label text)) := by
  rw [read_due hdue, readTerm, hl]

/-- The reading after one more negation. -/
def deny (r : Reading) : Reading :=
  { r with
    level := { r.level with negations := r.level.negations + 1 }, nesting := r.nesting + 1 }

theorem read_not {r : Reading} {l : Lexeme} (hdue : r.termDue = true) (hl : l.token = .not)
    (hn : r.nesting < maxNesting) : r.read l = .ok r.deny := by
  rw [read_due hdue, readTerm, hl]
  exact if_pos hn

/-- The reading inside one more parenthesis. -/
def enter (r : Reading) (position : Nat) : Reading :=
  ⟨.start, (position, r.level) :: r.enclosing, r.nesting + 1, true⟩

theorem read_opening {r : Reading} {l : Lexeme} (hdue : r.termDue = true)
    (hl : l.token = .opening) (hn : r.nesting < maxNesting) :
    r.read l = .ok (r.enter l.position) := by
  rw [read_due hdue, readTerm, hl]
  simp only [if_pos hn, enter, hdue]

theorem read_and {r : Reading} {l : Lexeme} (hdone : r.termDue = false) (hl : l.token = .and) :
    r.read l = .ok { r with termDue := true } := by
  rw [read_done hdone, readConnective, hl]

theorem read_or {r : Reading} {l : Lexeme} (hdone : r.termDue = false) (hl : l.token = .or) :
    r.read l = .ok { r with level := r.level.closeConjunction, termDue := true } := by
  rw [read_done hdone, readConnective, hl]

theorem read_closing {r : Reading} {l : Lexeme} {position : Nat} {outer : Level}
    {enclosing : List (Nat × Level)} (hdone : r.termDue = false) (hl : l.token = .closing)
    (he : r.enclosing = (position, outer) :: enclosing) :
    r.read l = .ok (addTerm ⟨outer, enclosing, r.nesting - 1, true⟩ r.level.expr) := by
  rw [read_done hdone, readConnective, hl, he]

/-- What a token that is read makes of a reading. -/
inductive Reads (r : Reading) (l : Lexeme) : Reading → Prop
  | word {text : String} (hdue : r.termDue = true) (hl : l.token = .word text) :
      Reads r l (r.addTerm (.label text))
  | not (hdue : r.termDue = true) (hl : l.token = .not) (hn : r.nesting < maxNesting) :
      Reads r l r.deny
  | opening (hdue : r.termDue = true) (hl : l.token = .opening) (hn : r.nesting < maxNesting) :
      Reads r l (r.enter l.position)
  | and (hdone : r.termDue = false) (hl : l.token = .and) : Reads r l { r with termDue := true }
  | or (hdone : r.termDue = false) (hl : l.token = .or) :
      Reads r l { r with level := r.level.closeConjunction, termDue := true }
  | closing {position : Nat} {outer : Level} {enclosing : List (Nat × Level)}
      (hdone : r.termDue = false) (hl : l.token = .closing)
      (he : r.enclosing = (position, outer) :: enclosing) :
      Reads r l (addTerm ⟨outer, enclosing, r.nesting - 1, true⟩ r.level.expr)

theorem reads_of_read {r r' : Reading} {l : Lexeme} (h : r.read l = .ok r') : Reads r l r' := by
  have step {next : Reading} (hnext : r.read l = .ok next) (hreads : Reads r l next) :
      Reads r l r' := by
    rw [h, Except.ok.injEq] at hnext
    exact hnext ▸ hreads
  cases hdue : r.termDue with
  | true =>
    rw [read_due hdue, readTerm] at h
    split at h
    · next hl => exact step (read_word hdue hl) (.word hdue hl)
    · next hl =>
      split at h
      · next hn => exact step (read_not hdue hl hn) (.not hdue hl hn)
      · cases h
    · next hl =>
      split at h
      · next hn => exact step (read_opening hdue hl hn) (.opening hdue hl hn)
      · cases h
    · cases h
  | false =>
    rw [read_done hdue, readConnective] at h
    split at h
    · next hl => exact step (read_and hdue hl) (.and hdue hl)
    · next hl => exact step (read_or hdue hl) (.or hdue hl)
    · next hl he => exact step (read_closing hdue hl he) (.closing hdue hl he)
    · cases h
    · cases h

end Reading

theorem Expr.negate_not (n : Nat) (e : Expr) : Expr.negate n (.not e) = .not (Expr.negate n e) := by
  induction n with
  | zero => rfl
  | succ n ih => rw [Expr.negate, ih, Expr.negate]

theorem Reading.addTerm_deny (r : Reading) (e : Expr) :
    r.deny.addTerm e = r.addTerm (.not e) := by
  have hnesting : r.nesting + 1 - (r.level.negations + 1) = r.nesting - r.level.negations := by
    omega
  simp only [addTerm, Level.addTerm, deny, hnesting, Expr.negate, Expr.negate_not]

end Conformance.Label
