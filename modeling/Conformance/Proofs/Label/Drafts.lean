import Conformance.Proofs.Label.Completeness

/-!
Behind a reading stand derivations that are still open: at each level of parentheses the terms
read there, and the negations that wait for the next one. Their yields are the tokens read so far,
so that a reading that comes to an end has read the tokens of a derivation.
-/
namespace Conformance.Label

/-- The conjunction of terms, the last of them apart. -/
def Conjunction.chain : List Unary → Unary → Conjunction
  | [], last => .one last
  | first :: rest, last => .more first (chain rest last)

def Disjunction.chain : List Conjunction → Conjunction → Disjunction
  | [], last => .one last
  | first :: rest, last => .more first (chain rest last)

def Unary.negate : Nat → Unary → Unary
  | 0, u => u
  | n + 1, u => .not (negate n u)

theorem Conjunction.exprs_chain (front : List Unary) (last : Unary) :
    (chain front last).exprs = front.map Unary.expr ++ [last.expr] := by
  induction front with
  | nil => rfl
  | cons first rest ih => simp [chain, Conjunction.exprs, ih]

theorem Conjunction.tokens_chain (front : List Unary) (last : Unary) :
    (chain front last).tokens = front.flatMap (fun u => u.tokens ++ [.and]) ++ last.tokens := by
  induction front with
  | nil => rfl
  | cons first rest ih => simp [chain, Conjunction.tokens, ih]

theorem Conjunction.nesting_chain_le {front : List Unary} {last : Unary} {n : Nat}
    (hfront : ∀ u ∈ front, u.nesting ≤ n) (hlast : last.nesting ≤ n) :
    (chain front last).nesting ≤ n := by
  induction front with
  | nil => exact hlast
  | cons first rest ih =>
    have hrest := ih fun u hu => hfront u (List.mem_cons_of_mem _ hu)
    exact Nat.max_le.mpr ⟨hfront first (List.mem_cons_self ..), hrest⟩

theorem Disjunction.exprs_chain (front : List Conjunction) (last : Conjunction) :
    (chain front last).exprs =
      front.map (fun c => .conjunction c.exprs) ++ [.conjunction last.exprs] := by
  induction front with
  | nil => rfl
  | cons first rest ih => simp [chain, Disjunction.exprs, ih]

theorem Disjunction.tokens_chain (front : List Conjunction) (last : Conjunction) :
    (chain front last).tokens = front.flatMap (fun c => c.tokens ++ [.or]) ++ last.tokens := by
  induction front with
  | nil => rfl
  | cons first rest ih => simp [chain, Disjunction.tokens, ih]

theorem Disjunction.nesting_chain_le {front : List Conjunction} {last : Conjunction} {n : Nat}
    (hfront : ∀ c ∈ front, c.nesting ≤ n) (hlast : last.nesting ≤ n) :
    (chain front last).nesting ≤ n := by
  induction front with
  | nil => exact hlast
  | cons first rest ih =>
    have hrest := ih fun c hc => hfront c (List.mem_cons_of_mem _ hc)
    exact Nat.max_le.mpr ⟨hfront first (List.mem_cons_self ..), hrest⟩

theorem Unary.expr_negate (n : Nat) (u : Unary) :
    (negate n u).expr = Expr.negate n u.expr := by
  induction n with
  | zero => rfl
  | succ n ih => rw [negate, Unary.expr, ih, Expr.negate]

theorem Unary.tokens_negate (n : Nat) (u : Unary) :
    (negate n u).tokens = List.replicate n .not ++ u.tokens := by
  induction n with
  | zero => rfl
  | succ n ih => rw [negate, Unary.tokens, ih, List.replicate_succ, List.cons_append]

theorem Unary.nesting_negate (n : Nat) (u : Unary) : (negate n u).nesting = n + u.nesting := by
  induction n with
  | zero => exact (Nat.zero_add _).symm
  | succ n ih => rw [negate, Unary.nesting, ih]; omega

/-- The derivations of the terms of one level, with the negations that wait for a term. -/
structure Draft where
  disjuncts : List Conjunction
  conjuncts : List Unary
  negations : Nat

namespace Draft

def level (d : Draft) : Level :=
  ⟨d.disjuncts.map fun c => .conjunction c.exprs, d.conjuncts.map Unary.expr, d.negations⟩

/-- What has been read of a level when a term is due. -/
def tokens (d : Draft) : List Token :=
  d.disjuncts.reverse.flatMap (fun c => c.tokens ++ [.or]) ++
    (d.conjuncts.reverse.flatMap (fun u => u.tokens ++ [.and]) ++ List.replicate d.negations .not)

/-- At a depth at which the level stands, nothing in it is nested too deep. -/
structure Fits (d : Draft) (depth : Nat) : Prop where
  disjuncts : ∀ c ∈ d.disjuncts, c.nesting ≤ maxNesting - depth
  conjuncts : ∀ u ∈ d.conjuncts, u.nesting ≤ maxNesting - depth
  negations : depth + d.negations ≤ maxNesting

/-- The draft with its negations taken by a primary. -/
def take (d : Draft) (p : Primary) : Unary := Unary.negate d.negations (.primary p)

def settled (d : Draft) : Draft := { d with negations := 0 }

def withTerm (d : Draft) (u : Unary) : Draft := { d with conjuncts := u :: d.conjuncts }

theorem tokens_settled_append (d : Draft) (p : Primary) :
    d.settled.tokens ++ (d.take p).tokens = d.tokens ++ p.tokens := by
  simp [settled, take, tokens, Unary.tokens_negate, Unary.tokens]

theorem addTerm_level (d : Draft) (p : Primary) :
    d.level.addTerm p.expr = (d.settled.withTerm (d.take p)).level := by
  simp [Level.addTerm, level, settled, withTerm, take, Unary.expr_negate, Unary.expr]

/-- How many negations and parentheses stand around the level inside these, the innermost first. -/
def depth : List Draft → Nat
  | [] => 0
  | d :: ds => depth ds + d.negations + 1

/-- What has been read of the levels around the current one. -/
def outside : List Draft → List Token
  | [] => []
  | d :: ds => outside ds ++ (d.tokens ++ [.opening])

def AllFit : List Draft → Prop
  | [] => True
  | d :: ds => d.Fits (depth ds) ∧ AllFit ds

/-- A primary that is not nested too deep inside its negations makes a term that fits. -/
theorem Fits.withTerm {d : Draft} {depth : Nat} (h : d.Fits depth) {p : Primary}
    (hp : depth + d.negations + p.nesting ≤ maxNesting) :
    (d.settled.withTerm (d.take p)).Fits depth := by
  refine ⟨h.disjuncts, fun u hu => ?_, Nat.le_trans (Nat.le_add_right _ _) h.negations⟩
  rcases List.mem_cons.mp hu with rfl | hu
  · simp only [take, Unary.nesting_negate, Unary.nesting]
    omega
  · exact h.conjuncts u hu

def conjunction (d : Draft) (u : Unary) : Conjunction := .chain d.conjuncts.reverse u

def disjunction (d : Draft) (u : Unary) : Disjunction :=
  .chain d.disjuncts.reverse (d.conjunction u)

theorem tokens_disjunction {d : Draft} (hzero : d.negations = 0) (u : Unary) :
    (d.disjunction u).tokens = d.tokens ++ u.tokens := by
  simp [disjunction, conjunction, Disjunction.tokens_chain, Conjunction.tokens_chain, tokens,
    hzero]

theorem closeConjunction_level {d : Draft} (u : Unary) :
    (d.withTerm u).level.closeConjunction =
      level ⟨d.conjunction u :: d.disjuncts, [], d.negations⟩ := by
  simp [Level.closeConjunction, level, withTerm, conjunction, Conjunction.exprs_chain]

theorem expr_level (d : Draft) (u : Unary) :
    (d.withTerm u).level.expr = (d.disjunction u).expr := by
  rw [Level.expr, closeConjunction_level]
  simp [level, disjunction, Disjunction.expr, Disjunction.exprs_chain]

theorem Fits.conjunction {d : Draft} {u : Unary} {depth : Nat}
    (h : (d.withTerm u).Fits depth) : (d.conjunction u).nesting ≤ maxNesting - depth :=
  Conjunction.nesting_chain_le
    (fun v hv => h.conjuncts v (List.mem_cons_of_mem _ (List.mem_reverse.mp hv)))
    (h.conjuncts u (List.mem_cons_self ..))

theorem Fits.disjunction {d : Draft} {u : Unary} {depth : Nat}
    (h : (d.withTerm u).Fits depth) : (d.disjunction u).nesting ≤ maxNesting - depth :=
  Disjunction.nesting_chain_le (fun c hc => h.disjuncts c (List.mem_reverse.mp hc)) h.conjunction

end Draft

open Draft

/-- The tokens that were read to come to a reading, by the derivations behind it. -/
inductive Reading.Reflects : Reading → List Token → Prop
  | due (enclosing : List (Nat × Level)) (d : Draft) (ds : List Draft)
      (henclosing : enclosing.map Prod.snd = ds.map Draft.level) (hfit : d.Fits (depth ds))
      (hfits : AllFit ds) :
      Reflects ⟨d.level, enclosing, depth ds + d.negations, true⟩ (outside ds ++ d.tokens)
  | done (enclosing : List (Nat × Level)) (d : Draft) (u : Unary) (ds : List Draft)
      (henclosing : enclosing.map Prod.snd = ds.map Draft.level) (hzero : d.negations = 0)
      (hfit : (d.withTerm u).Fits (depth ds)) (hfits : AllFit ds) :
      Reflects ⟨(d.withTerm u).level, enclosing, depth ds, false⟩
        (outside ds ++ (d.tokens ++ u.tokens))

namespace Reading.Reflects

theorem start : Reflects Reading.start [] := by
  refine due [] ⟨[], [], 0⟩ [] rfl ⟨?_, ?_, ?_⟩ trivial
  · simp
  · simp
  · exact Nat.zero_le _

/-- Adding a primary where a term is due settles the negations that wait for it. -/
theorem addTerm {enclosing : List (Nat × Level)} {d : Draft} {ds : List Draft}
    (henclosing : enclosing.map Prod.snd = ds.map Draft.level) (hfit : d.Fits (depth ds))
    (hfits : AllFit ds) {p : Primary}
    (hp : depth ds + d.negations + p.nesting ≤ maxNesting) :
    Reflects (Reading.addTerm ⟨d.level, enclosing, depth ds + d.negations, true⟩ p.expr)
      (outside ds ++ (d.tokens ++ p.tokens)) := by
  have h := done enclosing d.settled (d.take p) ds henclosing rfl (hfit.withTerm hp) hfits
  rw [tokens_settled_append] at h
  have hnesting : depth ds + d.negations - d.level.negations = depth ds := Nat.add_sub_cancel ..
  rwa [Reading.addTerm, addTerm_level, hnesting]

theorem not {enclosing : List (Nat × Level)} {d : Draft} {ds : List Draft}
    (henclosing : enclosing.map Prod.snd = ds.map Draft.level) (hfit : d.Fits (depth ds))
    (hfits : AllFit ds) (hn : depth ds + d.negations < maxNesting) :
    Reflects (Reading.deny ⟨d.level, enclosing, depth ds + d.negations, true⟩)
      (outside ds ++ (d.tokens ++ [.not])) := by
  have htokens : d.tokens ++ [.not] = Draft.tokens { d with negations := d.negations + 1 } := by
    simp [Draft.tokens, List.replicate_succ']
  rw [htokens]
  exact due enclosing { d with negations := d.negations + 1 } ds henclosing
    ⟨hfit.disjuncts, hfit.conjuncts, hn⟩ hfits

theorem opening {enclosing : List (Nat × Level)} {d : Draft} {ds : List Draft} {position : Nat}
    (henclosing : enclosing.map Prod.snd = ds.map Draft.level) (hfit : d.Fits (depth ds))
    (hfits : AllFit ds) (hn : depth ds + d.negations < maxNesting) :
    Reflects (Reading.enter ⟨d.level, enclosing, depth ds + d.negations, true⟩ position)
      (outside ds ++ (d.tokens ++ [.opening])) := by
  have h := due ((position, d.level) :: enclosing) ⟨[], [], 0⟩ (d :: ds)
    (by simp [henclosing]) ⟨by simp, by simp, hn⟩ ⟨hfit, hfits⟩
  have htokens : outside (d :: ds) ++ Draft.tokens ⟨[], [], 0⟩ =
      outside ds ++ (d.tokens ++ [.opening]) := by
    simp [outside, Draft.tokens]
  rwa [htokens] at h

theorem and {enclosing : List (Nat × Level)} {d : Draft} {u : Unary} {ds : List Draft}
    (henclosing : enclosing.map Prod.snd = ds.map Draft.level) (hzero : d.negations = 0)
    (hfit : (d.withTerm u).Fits (depth ds)) (hfits : AllFit ds) :
    Reflects ⟨(d.withTerm u).level, enclosing, depth ds, true⟩
      (outside ds ++ (d.tokens ++ u.tokens ++ [.and])) := by
  have h := due enclosing (d.withTerm u) ds henclosing hfit hfits
  simpa [Draft.tokens, Draft.withTerm, hzero] using h

theorem or {enclosing : List (Nat × Level)} {d : Draft} {u : Unary} {ds : List Draft}
    (henclosing : enclosing.map Prod.snd = ds.map Draft.level) (hzero : d.negations = 0)
    (hfit : (d.withTerm u).Fits (depth ds)) (hfits : AllFit ds) :
    Reflects ⟨(d.withTerm u).level.closeConjunction, enclosing, depth ds, true⟩
      (outside ds ++ (d.tokens ++ u.tokens ++ [.or])) := by
  have h := due enclosing ⟨d.conjunction u :: d.disjuncts, [], 0⟩ ds henclosing
    ⟨List.forall_mem_cons.mpr ⟨hfit.conjunction, hfit.disjuncts⟩, by simp, by
      have := hfit.negations
      simp only [Nat.add_zero]
      omega⟩ hfits
  rw [closeConjunction_level, hzero]
  simpa [Draft.tokens, Draft.conjunction, Conjunction.tokens_chain, hzero] using h

/-- A closing parenthesis makes a primary of the level that it ends. -/
theorem closing {enclosing : List (Nat × Level)} {position : Nat} {outer : Level} {d : Draft}
    {u : Unary} {ds : List Draft}
    (henclosing : ((position, outer) :: enclosing).map Prod.snd = ds.map Draft.level)
    (hzero : d.negations = 0) (hfit : (d.withTerm u).Fits (depth ds)) (hfits : AllFit ds) :
    Reflects (Reading.addTerm ⟨outer, enclosing, depth ds - 1, true⟩ (d.withTerm u).level.expr)
      (outside ds ++ (d.tokens ++ u.tokens ++ [.closing])) := by
  obtain ⟨d', ds, rfl, hd', houter⟩ := List.map_eq_cons_iff.mp henclosing.symm
  obtain ⟨hfit', hfits⟩ := hfits
  obtain rfl : d'.level = outer := hd'
  have hinner := hfit.disjunction
  have hn := hfit.negations
  simp only [depth] at hinner hn
  have h := addTerm houter.symm hfit' hfits (p := .parens (d.disjunction u))
    (by simp only [Primary.nesting]; omega)
  rw [expr_level]
  simpa [outside, depth, Primary.tokens, Primary.expr, Disjunction.expr,
    Draft.tokens_disjunction hzero] using h

/-- A token that is read goes on with the derivations behind the reading. -/
theorem read {r r' : Reading} {l : Lexeme} {ts : List Token} (h : Reflects r ts)
    (hread : r.read l = .ok r') : Reflects r' (ts ++ [l.token]) := by
  cases h with
  | due enclosing d ds henclosing hfit hfits =>
    rw [List.append_assoc]
    rw [Reading.read_due rfl, readTerm] at hread
    split at hread
    · next text hl =>
      cases hread
      rw [hl]
      exact addTerm henclosing hfit hfits (p := .word text) hfit.negations
    · next hl =>
      split at hread <;> cases hread
      rw [hl]
      exact not henclosing hfit hfits ‹_›
    · next hl =>
      split at hread <;> cases hread
      rw [hl]
      exact opening henclosing hfit hfits ‹_›
    · cases hread
  | done enclosing d u ds henclosing hzero hfit hfits =>
    rw [List.append_assoc]
    rw [Reading.read_done rfl, readConnective] at hread
    split at hread
    · next hl =>
      cases hread
      rw [hl]
      exact and henclosing hzero hfit hfits
    · next hl =>
      cases hread
      rw [hl]
      exact or henclosing hzero hfit hfits
    · next hl he =>
      cases hread
      rw [hl]
      subst he
      exact closing henclosing hzero hfit hfits
    · cases hread
    · cases hread

theorem foldlM {r r' : Reading} {ls : List Lexeme} {ts : List Token} (h : Reflects r ts)
    (hread : ls.foldlM Reading.read r = .ok r') : Reflects r' (ts ++ ls.map Lexeme.token) := by
  induction ls generalizing r ts with
  | nil =>
    cases hread
    simpa using h
  | cons l ls ih =>
    obtain ⟨next, hl, hls⟩ := Reading.exists_of_foldlM_cons hread
    simpa using ih (h.read hl) hls

/-- A reading that has come to an end has read the tokens of a derivation that fits. -/
theorem finish {r : Reading} {ts : List Token} {e : Expr} (h : Reflects r ts)
    (hend : r.finish = .ok e) :
    ∃ d : Disjunction, d.tokens = ts ∧ d.nesting ≤ maxNesting ∧ d.expr = e := by
  cases h with
  | due enclosing d ds henclosing hfit hfits => simp [Reading.finish] at hend
  | done enclosing d u ds henclosing hzero hfit hfits =>
    simp only [Reading.finish, Bool.false_eq_true, if_false] at hend
    split at hend
    · cases hend
      obtain rfl := List.map_eq_nil_iff.mp henclosing.symm
      exact ⟨d.disjunction u, Draft.tokens_disjunction hzero u, hfit.disjunction,
        (Draft.expr_level d u).symm⟩
    · cases hend

end Reading.Reflects

theorem exists_disjunction_of_ofLexemes {ls : List Lexeme} {e : Expr}
    (h : Expr.ofLexemes ls = .ok e) :
    ∃ d : Disjunction, d.tokens = ls.map Lexeme.token ∧ d.nesting ≤ maxNesting ∧ d.expr = e := by
  by_cases hne : ls = []
  · subst hne
    cases h
  · rw [Expr.ofLexemes_eq_toEnd hne, Reading.toEnd] at h
    cases hr : ls.foldlM Reading.read Reading.start with
    | error fault => rw [hr] at h; cases h
    | ok r =>
      rw [hr] at h
      exact (Reading.Reflects.start.foldlM hr).finish h

end Conformance.Label
