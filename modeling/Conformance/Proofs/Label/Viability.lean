import Conformance.Proofs.Label.Drafts

/-!
What can come next. Tokens are viable when some sentence within the bound on nesting begins with
them, and a reading goes on for just as long as what it has read is viable. What it keeps of the
tokens is what their place in a sentence tells: whether an operand is due, how many negations and
parentheses stand around the next token, and which parentheses are still open.
-/
namespace Conformance.Label

/-- A whole expression within the bound on nesting. -/
def IsSentence (ts : List Token) : Prop := ∃ d : Disjunction, d.tokens = ts ∧ d.nesting ≤ maxNesting

def IsViable (ts : List Token) : Prop := ∃ us, IsSentence (ts ++ us)

theorem IsSentence.isViable {ts : List Token} (h : IsSentence ts) : IsViable ts :=
  ⟨[], by rwa [List.append_nil]⟩

theorem IsViable.of_append {ts us : List Token} (h : IsViable (ts ++ us)) : IsViable ts := by
  obtain ⟨vs, h⟩ := h
  exact ⟨us ++ vs, by rwa [← List.append_assoc]⟩

section Viability

open Reading

variable {r : Reading} {ls : List Lexeme} {ts : List Token}

/-- What has been read up to an operand goes on with the parentheses that close it. -/
theorem Reading.Reflects.isViable_of_done (h : Reflects r ts) (hdone : r.termDue = false) :
    IsViable ts := by
  generalize henclosing : r.enclosing = enclosing
  induction enclosing generalizing r ts with
  | nil =>
    have hend : r.finish = .ok r.level.expr := by
      rw [Reading.finish, henclosing, hdone]
      rfl
    obtain ⟨d, htokens, hn, -⟩ := h.finish hend
    exact IsSentence.isViable ⟨d, htokens, hn⟩
  | cons around rest ih =>
    have hread := read_closing (l := ⟨0, .closing⟩) hdone rfl henclosing
    exact (ih (h.read hread) rfl rfl).of_append

theorem Reading.Reflects.isViable_word (h : Reflects r ts) (hdue : r.termDue = true) :
    IsViable (ts ++ [.word ""]) :=
  (h.read (read_word (l := ⟨0, .word ""⟩) hdue rfl)).isViable_of_done rfl

theorem Reading.Reflects.isViable (h : Reflects r ts) : IsViable ts := by
  cases hdue : r.termDue with
  | true => exact (h.isViable_word hdue).of_append
  | false => exact h.isViable_of_done hdue

/-- A reading is never deeper than the bound. -/
theorem Reading.Reflects.nesting_le (h : Reflects r ts) : r.nesting ≤ maxNesting := by
  cases h with
  | due _ _ _ _ hfit => exact hfit.negations
  | done _ _ _ _ _ _ hfit => exact Nat.le_of_add_right_le hfit.negations

/-- Lexemes for tokens, at places that do not matter. -/
def placeless (ts : List Token) : List Lexeme := ts.map (⟨0, ·⟩)

theorem map_token_placeless (ts : List Token) : (placeless ts).map Lexeme.token = ts := by
  rw [placeless, List.map_map]
  exact List.map_id ts

/-- The tokens that can be read are those with which a sentence begins. -/
theorem exists_reading_iff :
    (∃ r, ls.foldlM Reading.read Reading.start = .ok r) ↔ IsViable (ls.map Lexeme.token) := by
  constructor
  · rintro ⟨r, h⟩
    exact (Reflects.start.foldlM h).isViable
  · rintro ⟨us, d, htokens, hn⟩
    have hwhole : Expr.ofLexemes (ls ++ placeless us) = .ok d.expr :=
      d.ofLexemes hn (by rw [List.map_append, map_token_placeless, htokens])
    cases hr : ls.foldlM Reading.read Reading.start with
    | ok r => exact ⟨r, rfl⟩
    | error fault =>
      have hne : ls ++ placeless us ≠ [] := by
        intro hnil
        rw [(List.append_eq_nil_iff.mp hnil).1] at hr
        cases hr
      rw [Expr.ofLexemes_eq_toEnd hne, toEnd, List.foldlM_append, hr] at hwhole
      cases hwhole

end Viability

section Operands

/-- A token after which an operand is due. -/
def Token.AwaitsOperand : Token → Prop
  | .word _ | .closing => False
  | .and | .or | .not | .opening => True

/-- An operand is due behind the tokens. -/
def OperandDue (ts : List Token) : Prop := ∀ t ∈ ts.getLast?, t.AwaitsOperand

variable {r r' : Reading} {l : Lexeme} {ls : List Lexeme}

theorem Reading.termDue_of_read (h : r.read l = .ok r') :
    r'.termDue = true ↔ l.token.AwaitsOperand := by
  cases reads_of_read h with
  | word _ hl | closing _ hl _ => simp [hl, addTerm, Token.AwaitsOperand]
  | not hdue hl _ => simp [hl, deny, hdue, Token.AwaitsOperand]
  | opening _ hl _ => simp [hl, enter, Token.AwaitsOperand]
  | and _ hl | or _ hl => simp [hl, Token.AwaitsOperand]

theorem Reading.termDue_iff (h : ls.foldlM read start = .ok r) :
    r.termDue = true ↔ OperandDue (ls.map Lexeme.token) := by
  rcases List.eq_nil_or_concat ls with rfl | ⟨front, l, rfl⟩
  · cases h
    exact ⟨fun _ => nofun, fun _ => rfl⟩
  · rw [List.concat_eq_append] at h
    obtain ⟨before, -, hlast⟩ := exists_of_foldlM_append h
    obtain ⟨after, hread, hnil⟩ := exists_of_foldlM_cons hlast
    cases hnil
    rw [termDue_of_read hread]
    simp [OperandDue]

end Operands

section Depths

mutual
/-- How many negations and parentheses stand around each token, inside `n` of them. A closing
parenthesis stands inside the pair that it ends. -/
def Disjunction.depths (n : Nat) : Disjunction → List Nat
  | .one first => first.depths n
  | .more first rest => first.depths n ++ n :: rest.depths n

def Conjunction.depths (n : Nat) : Conjunction → List Nat
  | .one first => first.depths n
  | .more first rest => first.depths n ++ n :: rest.depths n

def Unary.depths (n : Nat) : Unary → List Nat
  | .not inner => n :: inner.depths (n + 1)
  | .primary inner => inner.depths n

def Primary.depths (n : Nat) : Primary → List Nat
  | .word _ => [n]
  | .parens inner => n :: (inner.depths (n + 1) ++ [n + 1])
end

/-- The nesting before each of the lexemes, as long as they can be read. -/
def Reading.nestings (r : Reading) : List Lexeme → List Nat
  | [] => []
  | l :: ls => r.nesting :: match r.read l with
    | .ok r' => r'.nestings ls
    | .error _ => []

open Reading

theorem Reading.nestings_cons {r r' : Reading} {l : Lexeme} (h : r.read l = .ok r')
    (ls : List Lexeme) : r.nestings (l :: ls) = r.nesting :: r'.nestings ls := by
  rw [nestings, h]

theorem Reading.nestings_append {r r' : Reading} {ls : List Lexeme}
    (h : ls.foldlM read r = .ok r') (ms : List Lexeme) :
    r.nestings (ls ++ ms) = r.nestings ls ++ r'.nestings ms := by
  induction ls generalizing r with
  | nil =>
    cases h
    rfl
  | cons l ls ih =>
    obtain ⟨next, hl, hls⟩ := exists_of_foldlM_cons h
    rw [List.cons_append, nestings_cons hl, nestings_cons hl, ih hls, List.cons_append]

theorem Reading.length_nestings {r r' : Reading} {ls : List Lexeme}
    (h : ls.foldlM read r = .ok r') : (r.nestings ls).length = ls.length := by
  induction ls generalizing r with
  | nil => rfl
  | cons l ls ih =>
    obtain ⟨next, hl, hls⟩ := exists_of_foldlM_cons h
    rw [nestings_cons hl, List.length_cons, ih hls, List.length_cons]

mutual
/-- A derivation is read at the depths at which its tokens stand. -/
theorem Unary.nestings_read : (u : Unary) → {r : Reading} → {ls : List Lexeme} →
    r.termDue = true → r.nesting + u.nesting ≤ maxNesting → ls.map Lexeme.token = u.tokens →
    r.nestings ls = u.depths r.nesting
  | .not inner, r, ls, hdue, hn, hls => by
    obtain ⟨l, ls, rfl, hl, hls⟩ := List.map_eq_cons_iff.mp hls
    simp only [Unary.nesting] at hn
    rw [nestings_cons (read_not hdue hl (by omega)),
      Unary.nestings_read inner (r := r.deny) hdue (by simp only [deny]; omega) hls]
    rfl
  | .primary (.word text), r, ls, hdue, hn, hls => by
    obtain ⟨l, ls, rfl, hl, hls⟩ := List.map_eq_cons_iff.mp hls
    obtain rfl := List.map_eq_nil_iff.mp hls
    exact nestings_cons (read_word hdue hl) []
  | .primary (.parens inner), r, ls, hdue, hn, hls => by
    obtain ⟨l, ls, rfl, hl, hls⟩ := List.map_eq_cons_iff.mp hls
    obtain ⟨ls, ms, rfl, hinner, hms⟩ := List.map_eq_append_iff.mp hls
    obtain ⟨m, ms, rfl, hm, hms⟩ := List.map_eq_cons_iff.mp hms
    obtain rfl := List.map_eq_nil_iff.mp hms
    simp only [Unary.nesting, Primary.nesting] at hn
    have hroom : (r.enter l.position).nesting + inner.nesting ≤ maxNesting := by
      simp only [enter]
      omega
    obtain ⟨level, hread, -⟩ := Disjunction.foldlM_read inner rfl rfl rfl hroom hinner
    rw [nestings_cons (read_opening hdue hl (by omega)), nestings_append hread,
      Disjunction.nestings_read inner rfl rfl rfl hroom hinner,
      nestings_cons (read_closing rfl hm rfl)]
    rfl

theorem Conjunction.nestings_read : (c : Conjunction) → {r : Reading} → {ls : List Lexeme} →
    r.termDue = true → r.level.negations = 0 → r.nesting + c.nesting ≤ maxNesting →
    ls.map Lexeme.token = c.tokens → r.nestings ls = c.depths r.nesting
  | .one first, r, ls, hdue, hzero, hn, hls => Unary.nestings_read first hdue hn hls
  | .more first rest, r, ls, hdue, hzero, hn, hls => by
    obtain ⟨ls, ms, rfl, hfirst, hms⟩ := List.map_eq_append_iff.mp hls
    obtain ⟨m, ms, rfl, hm, hms⟩ := List.map_eq_cons_iff.mp hms
    simp only [Conjunction.nesting] at hn
    have hsame : (r.addTerm first.expr).nesting = r.nesting := by
      simp only [addTerm, hzero, Nat.sub_zero]
    rw [nestings_append (Unary.foldlM_read first hdue (by omega) hfirst),
      Unary.nestings_read first hdue (by omega) hfirst, nestings_cons (read_and rfl hm),
      Conjunction.nestings_read rest rfl rfl (by simp only [hsame]; omega) hms, hsame]
    rfl

theorem Disjunction.nestings_read : (d : Disjunction) → {r : Reading} → {ls : List Lexeme} →
    r.termDue = true → r.level.negations = 0 → r.level.conjuncts = [] →
    r.nesting + d.nesting ≤ maxNesting → ls.map Lexeme.token = d.tokens →
    r.nestings ls = d.depths r.nesting
  | .one first, r, ls, hdue, hzero, hempty, hn, hls =>
    Conjunction.nestings_read first hdue hzero hn hls
  | .more first rest, r, ls, hdue, hzero, hempty, hn, hls => by
    obtain ⟨ls, ms, rfl, hfirst, hms⟩ := List.map_eq_append_iff.mp hls
    obtain ⟨m, ms, rfl, hm, hms⟩ := List.map_eq_cons_iff.mp hms
    simp only [Disjunction.nesting] at hn
    let closed : Level :=
      { r.level with conjuncts := first.exprs.reverse ++ r.level.conjuncts }.closeConjunction
    have hrest := Disjunction.nestings_read rest (r := { r with level := closed, termDue := true })
      rfl hzero rfl (by simp only; omega) hms
    rw [nestings_append (Conjunction.foldlM_read first hdue hzero (by omega) hfirst),
      Conjunction.nestings_read first hdue hzero (by omega) hfirst, nestings_cons (read_or rfl hm)]
    exact congrArg (first.depths r.nesting ++ r.nesting :: ·) hrest
end

/-- The next token stands inside `n` negations and parentheses in a sentence that begins with the
tokens. -/
def Encloses (n : Nat) (ts : List Token) : Prop :=
  ∃ (d : Disjunction) (t : Token) (us : List Token), d.nesting ≤ maxNesting ∧
    d.tokens = ts ++ t :: us ∧ (d.depths 0)[ts.length]? = some n

variable {r : Reading} {ls : List Lexeme}

/-- The nesting of a reading is that of the next token in every sentence that goes on from it. -/
theorem Reading.nesting_eq (h : ls.foldlM read start = .ok r) {d : Disjunction} {t : Token}
    {us : List Token} (hn : d.nesting ≤ maxNesting)
    (htokens : d.tokens = ls.map Lexeme.token ++ t :: us) :
    (d.depths 0)[(ls.map Lexeme.token).length]? = some r.nesting := by
  have hall : (ls ++ placeless (t :: us)).map Lexeme.token = d.tokens := by
    rw [List.map_append, map_token_placeless, htokens]
  have hdepths := d.nestings_read (r := start) rfl rfl rfl (by simpa [start] using hn) hall
  rw [nestings_append h] at hdepths
  rw [List.length_map, ← length_nestings h]
  have hstart : (start.nestings ls ++ r.nestings (placeless (t :: us)))[
      (start.nestings ls).length]? = some r.nesting := by
    rw [List.getElem?_append_right (Nat.le_refl _), Nat.sub_self]
    rfl
  rwa [hdepths] at hstart

theorem Reading.encloses_iff (h : ls.foldlM read start = .ok r) (hdue : r.termDue = true)
    {n : Nat} : Encloses n (ls.map Lexeme.token) ↔ r.nesting = n := by
  constructor
  · rintro ⟨d, t, us, hn, htokens, hdepth⟩
    rw [nesting_eq h hn htokens, Option.some.injEq] at hdepth
    exact hdepth
  · rintro rfl
    obtain ⟨us, d, htokens, hn⟩ := (Reflects.start.foldlM h).isViable_word hdue
    rw [List.nil_append, List.append_assoc] at htokens
    exact ⟨d, _, us, hn, htokens, nesting_eq h hn htokens⟩

end Depths

section Parentheses

/-- Each parenthesis has its partner among the tokens. -/
inductive Balanced : List Token → Prop
  | nil : Balanced []
  | token {ts : List Token} {t : Token} (h : Balanced ts) (hopening : t ≠ .opening)
      (hclosing : t ≠ .closing) : Balanced (ts ++ [t])
  | group {ts us : List Token} (h : Balanced ts) (hinner : Balanced us) :
      Balanced (ts ++ .opening :: (us ++ [.closing]))

theorem Balanced.count_eq {ts : List Token} (h : Balanced ts) :
    ts.count .opening = ts.count .closing := by
  induction h with
  | nil => rfl
  | token _ hopening hclosing ih => simp [List.count_append, ih, hopening, hclosing]
  | group _ _ ih ihinner => simp [List.count_append, ih, ihinner]

/-- No parenthesis of balanced tokens is opened without being closed behind. -/
theorem Balanced.count_le {ts us : List Token} (h : Balanced ts) (hus : us <:+ ts) :
    us.count .opening ≤ us.count .closing := by
  induction h generalizing us with
  | nil =>
    obtain rfl := List.suffix_nil.mp hus
    exact Nat.le_refl _
  | @token ts t _ hopening hclosing ih =>
    rcases List.suffix_concat_iff.mp hus with rfl | ⟨vs, rfl, hvs⟩
    · exact Nat.zero_le _
    · simpa [List.count_append, hopening, hclosing] using ih hvs
  | @group ts inner _ hinner ih ihinner =>
    obtain ⟨front, hfront⟩ := hus
    have hpair : (Token.opening :: (inner ++ [.closing])).count .opening =
        (Token.opening :: (inner ++ [.closing])).count .closing :=
      (Balanced.nil.group hinner).count_eq
    rcases List.append_eq_append_iff.mp hfront with ⟨vs, hts, rfl⟩ | ⟨vs, rfl, hgroup⟩
    · have hvs := ih ⟨front, hts.symm⟩
      rw [List.count_append, List.count_append, hpair]
      exact Nat.add_le_add_right hvs _
    · cases vs with
      | nil =>
        rw [← List.nil_append us, ← hgroup]
        exact Nat.le_of_eq hpair
      | cons first vs =>
        have hsuffix : us <:+ inner ++ [.closing] := ⟨vs, (List.cons.inj hgroup).2.symm⟩
        rcases List.suffix_concat_iff.mp hsuffix with rfl | ⟨vs, rfl, hvs⟩
        · exact Nat.zero_le _
        · simpa [List.count_append] using Nat.le_succ_of_le (ihinner hvs)

end Parentheses

end Conformance.Label
