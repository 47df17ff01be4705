import Conformance.Label.Expr
import Conformance.Label.Token

/-!
Label expressions by recursive descent, one function for each rule of the grammar and a loop for
each chain:

    or      := and ("||" and)*
    and     := unary ("&&" unary)*
    unary   := "!" unary | primary
    primary := WORD | "(" or ")"

The parser counts the negations and parentheses that it has entered. It goes one deeper before it
reads what they enclose and comes back behind it.
-/
namespace Conformance.Label

/-- The lexemes that are still to be read, and how deep the next of them is nested. -/
structure Parser where
  rest : List Lexeme
  depth : Nat

namespace Parser

def start (ls : List Lexeme) : Parser := ⟨ls, 0⟩

def descend (p : Parser) : Parser := { p with depth := p.depth + 1 }

def ascend (p : Parser) : Parser := { p with depth := p.depth - 1 }

/-- What a call comes to. When it has read an expression, fewer than `bound` lexemes are left; with
a fault, the parser stays where it was found. -/
inductive Outcome (bound : Nat) where
  | ok (expr : Expr) (parser : Parser) (h : parser.rest.length < bound)
  | error (fault : Fault) (parser : Parser)

namespace Outcome

variable {m n : Nat}

def weaken (h : m ≤ n) : Outcome m → Outcome n
  | ok expr parser hlt => ok expr parser (Nat.lt_of_lt_of_le hlt h)
  | error fault parser => error fault parser

/-- The parser that is left. -/
def parser : Outcome n → Parser
  | ok _ parser _ => parser
  | error _ parser => parser

def toExcept : Outcome n → Except Fault Expr
  | ok expr _ _ => .ok expr
  | error fault _ => .error fault

end Outcome

/-- Behind the expression in a parenthesis comes the one that closes it. -/
def close (opening : Nat) (inner : Expr) : (p : Parser) → Outcome p.rest.length
  | ⟨⟨_, .closing⟩ :: rest, depth⟩ => .ok inner ⟨rest, depth⟩ (Nat.lt_succ_self _)
  | ⟨⟨position, token⟩ :: rest, depth⟩ => .error (.unexpectedToken position token) ⟨rest, depth⟩
  | ⟨[], depth⟩ => .error (.unbalancedParen opening) ⟨[], depth⟩

mutual
def disjunction (p : Parser) : Outcome p.rest.length :=
  match conjunction p with
  | .error fault q => .error fault q
  | .ok first q h => (alternatives [first] q).weaken h
termination_by (p.rest.length, 4)
decreasing_by
  · exact Prod.Lex.right _ (by decide)
  · exact Prod.Lex.left _ _ h

/-- The alternatives behind those that have been read, the latest of which comes first. -/
def alternatives (terms : List Expr) : (p : Parser) → Outcome (p.rest.length + 1)
  | ⟨⟨_, .or⟩ :: rest, depth⟩ =>
    match conjunction ⟨rest, depth⟩ with
    | .error fault q => .error fault q
    | .ok term q h =>
      (alternatives (term :: terms) q).weaken (Nat.le_succ_of_le (Nat.le_succ_of_le h))
  | p => .ok (.disjunction terms.reverse) p (Nat.lt_succ_self _)
termination_by p => (p.rest.length, 0)
decreasing_by
  · exact Prod.Lex.left _ _ (Nat.lt_succ_self _)
  · exact Prod.Lex.left _ _ (Nat.lt_succ_of_lt h)

def conjunction (p : Parser) : Outcome p.rest.length :=
  match unary p with
  | .error fault q => .error fault q
  | .ok first q h => (conjuncts [first] q).weaken h
termination_by (p.rest.length, 3)
decreasing_by
  · exact Prod.Lex.right _ (by decide)
  · exact Prod.Lex.left _ _ h

/-- The conjuncts behind those that have been read, the latest of which comes first. -/
def conjuncts (terms : List Expr) : (p : Parser) → Outcome (p.rest.length + 1)
  | ⟨⟨_, .and⟩ :: rest, depth⟩ =>
    match unary ⟨rest, depth⟩ with
    | .error fault q => .error fault q
    | .ok term q h => (conjuncts (term :: terms) q).weaken (Nat.le_succ_of_le (Nat.le_succ_of_le h))
  | p => .ok (.conjunction terms.reverse) p (Nat.lt_succ_self _)
termination_by p => (p.rest.length, 0)
decreasing_by
  · exact Prod.Lex.left _ _ (Nat.lt_succ_self _)
  · exact Prod.Lex.left _ _ (Nat.lt_succ_of_lt h)

def unary : (p : Parser) → Outcome p.rest.length
  | ⟨⟨position, .not⟩ :: rest, depth⟩ =>
    let inside := descend ⟨rest, depth⟩
    if maxNesting < inside.depth then .error (.tooDeep position) inside
    else match unary inside with
      | .error fault q => .error fault q
      | .ok inner q h => .ok (.not inner) q.ascend (Nat.lt_succ_of_lt h)
  | p => primary p
termination_by p => (p.rest.length, 2)
decreasing_by
  · exact Prod.Lex.left _ _ (Nat.lt_succ_self _)
  · exact Prod.Lex.right _ (by decide)

def primary : (p : Parser) → Outcome p.rest.length
  | ⟨⟨_, .word text⟩ :: rest, depth⟩ => .ok (.label text) ⟨rest, depth⟩ (Nat.lt_succ_self _)
  | ⟨⟨position, .opening⟩ :: rest, depth⟩ =>
    let inside := descend ⟨rest, depth⟩
    if maxNesting < inside.depth then .error (.tooDeep position) inside
    else match disjunction inside with
      | .error fault q => .error fault q
      | .ok inner q h =>
        have hle : q.ascend.rest.length ≤ rest.length + 1 := Nat.le_succ_of_le (Nat.le_of_lt h)
        (close position inner q.ascend).weaken hle
  | ⟨⟨position, token⟩ :: rest, depth⟩ => .error (.unexpectedToken position token) ⟨rest, depth⟩
  | ⟨[], depth⟩ => .error .unexpectedEnd ⟨[], depth⟩
termination_by p => (p.rest.length, 1)
decreasing_by
  · exact Prod.Lex.left _ _ (Nat.lt_succ_self _)
end

/-- Nothing comes behind the whole expression. -/
def finish (root : Expr) : (p : Parser) → Outcome (p.rest.length + 1)
  | ⟨[], depth⟩ => .ok root ⟨[], depth⟩ (Nat.lt_succ_self _)
  | ⟨⟨position, .closing⟩ :: rest, depth⟩ => .error (.unbalancedParen position) ⟨rest, depth⟩
  | ⟨⟨position, token⟩ :: rest, depth⟩ => .error (.unexpectedToken position token) ⟨rest, depth⟩

def whole (p : Parser) : Outcome p.rest.length :=
  match disjunction p with
  | .error fault q => .error fault q
  | .ok root q h => (finish root q).weaken h

end Parser

def Expr.ofLexemes (ls : List Lexeme) : Except Fault Expr :=
  if ls.isEmpty then .error .empty else (Parser.start ls).whole.toExcept

end Conformance.Label
