import Conformance.Proofs.Label.Viability
import Mathlib.Data.List.Basic

/-!
Which negations and parentheses enclose a token, told from the tokens before it and the grammar. A
negation goes on up to the end of its operand, and a parenthesis up to the end of the expression in
it, so that a derivation leaves nothing open behind it. What a reading has read leaves open the
negations that wait and the parentheses of the levels around the current one.
-/
namespace Conformance.Label

section Enclosing

/-- Whether a token encloses `t`, with the tokens `between` in between. A negation does until its
operand has ended, and a parenthesis until the expression in it has ended, which it has not before a
connective. The parenthesis that closes another stands behind that expression. -/
def Token.Encloses : Token → List Token → Token → Prop
  | .not, between, _ => ∀ (u : Unary) (rest : List Token), between ≠ u.tokens ++ rest
  | .opening, between, t => ∀ (d : Disjunction) (s : Token) (rest : List Token),
      between ++ [t] = d.tokens ++ s :: rest → s = .and ∨ s = .or
  | .word _, _, _ | .and, _, _ | .or, _, _ | .closing, _, _ => False

open Classical in
/-- The negations and parentheses around `t` where it comes behind the tokens, the outermost
first. -/
noncomputable def Token.enclosers (t : Token) : List Token → List Token
  | [] => []
  | s :: ts => if s.Encloses ts t then s :: enclosers t ts else enclosers t ts

variable {s t : Token} {ts us : List Token} {n : Nat}

theorem enclosers_of_encloses (h : s.Encloses ts t) :
    t.enclosers (s :: ts) = s :: t.enclosers ts := if_pos h

theorem enclosers_of_not_encloses (h : ¬s.Encloses ts t) :
    t.enclosers (s :: ts) = t.enclosers ts := if_neg h

/-- Only negations and parentheses enclose. -/
theorem length_enclosers_eq (t : Token) (ts : List Token) : (t.enclosers ts).length =
    (t.enclosers ts).count .opening + (t.enclosers ts).count .not := by
  induction ts with
  | nil => rfl
  | cons s ts ih =>
    by_cases h : s.Encloses ts t
    · rw [enclosers_of_encloses h, List.length_cons, ih]
      cases s with
      | not => rw [List.count_cons_self, List.count_cons_of_ne (by decide), Nat.add_assoc]
      | opening => rw [List.count_cons_self, List.count_cons_of_ne (by decide), Nat.add_right_comm]
      | word _ | and | or | closing => exact h.elim
    · rwa [enclosers_of_not_encloses h]

end Enclosing

section Opening

variable {t : Token} {ts us : List Token} {n : Nat}

/-- Whether a parenthesis in which `n` more are open has not been closed behind the tokens. -/
def staysOpen : Nat → List Token → Bool
  | _, [] => true
  | n, .opening :: ts => staysOpen (n + 1) ts
  | 0, .closing :: _ => false
  | n + 1, .closing :: ts => staysOpen n ts
  | n, .word _ :: ts | n, .and :: ts | n, .or :: ts | n, .not :: ts => staysOpen n ts

/-- Whether the operand that begins with the tokens goes on behind them. -/
def awaitsMore : List Token → Bool
  | [] => true
  | .not :: ts => awaitsMore ts
  | .opening :: ts => staysOpen 0 ts
  | .word _ :: _ | .and :: _ | .or :: _ | .closing :: _ => false

theorem staysOpen_of_append (h : staysOpen n (ts ++ us) = true) : staysOpen n ts = true := by
  fun_induction staysOpen n ts with
  | case1 => rfl
  | case3 => cases h
  | case2 _ _ ih | case4 _ _ ih | case5 _ _ _ ih | case6 _ _ ih | case7 _ _ ih | case8 _ _ ih =>
    exact ih h

theorem staysOpen_succ (h : staysOpen n ts = true) : staysOpen (n + 1) ts = true := by
  fun_induction staysOpen n ts with
  | case1 => rfl
  | case3 => cases h
  | case2 _ _ ih | case4 _ _ ih | case5 _ _ _ ih | case6 _ _ ih | case7 _ _ ih | case8 _ _ ih =>
    exact ih h

mutual
/-- A derivation leaves a parenthesis before it as it was. -/
theorem Disjunction.staysOpen_append (n : Nat) (ts : List Token) : (d : Disjunction) →
    staysOpen n (d.tokens ++ ts) = staysOpen n ts
  | .one first => first.staysOpen_append n ts
  | .more first rest => by
    rw [Disjunction.tokens, List.append_assoc, List.cons_append, first.staysOpen_append, staysOpen,
      rest.staysOpen_append]

theorem Conjunction.staysOpen_append (n : Nat) (ts : List Token) : (c : Conjunction) →
    staysOpen n (c.tokens ++ ts) = staysOpen n ts
  | .one first => first.staysOpen_append n ts
  | .more first rest => by
    rw [Conjunction.tokens, List.append_assoc, List.cons_append, first.staysOpen_append, staysOpen,
      rest.staysOpen_append]

theorem Unary.staysOpen_append (n : Nat) (ts : List Token) : (u : Unary) →
    staysOpen n (u.tokens ++ ts) = staysOpen n ts
  | .not inner => inner.staysOpen_append n ts
  | .primary inner => inner.staysOpen_append n ts

theorem Primary.staysOpen_append (n : Nat) (ts : List Token) : (p : Primary) →
    staysOpen n (p.tokens ++ ts) = staysOpen n ts
  | .word _ => rfl
  | .parens inner => by
    rw [Primary.tokens, List.cons_append, List.append_assoc, staysOpen, inner.staysOpen_append]
    rfl
end

theorem Disjunction.staysOpen_tokens (d : Disjunction) (n : Nat) : staysOpen n d.tokens = true := by
  rw [← List.append_nil d.tokens, d.staysOpen_append]
  rfl

/-- The operand of a negation ends with the term that it is. -/
theorem Unary.awaitsMore_append (ts : List Token) : (u : Unary) →
    awaitsMore (u.tokens ++ ts) = false
  | .not inner => inner.awaitsMore_append ts
  | .primary (.word _) => rfl
  | .primary (.parens inner) => by
    rw [Unary.tokens, Primary.tokens, List.cons_append, List.append_assoc, awaitsMore,
      inner.staysOpen_append]
    rfl

end Opening

section Derivations

variable {s t : Token} {ts us : List Token}

theorem encloses_not_of_awaitsMore (h : awaitsMore ts = true) (t : Token) :
    Token.not.Encloses ts t := by
  rintro u rest rfl
  rw [u.awaitsMore_append] at h
  cases h

theorem Unary.not_encloses (u : Unary) (ts : List Token) (t : Token) :
    ¬Token.not.Encloses (u.tokens ++ ts) t := fun h => h u ts rfl

/-- A parenthesis does not go on where the expression in it does not. -/
theorem Disjunction.not_encloses {d : Disjunction} (h : ts ++ [t] = s :: us) (hand : s ≠ .and)
    (hor : s ≠ .or) : ¬Token.opening.Encloses (d.tokens ++ ts) t := by
  intro hencloses
  rcases hencloses d s us (by rw [List.append_assoc, h]) with rfl | rfl
  · exact hand rfl
  · exact hor rfl

mutual
/-- Nothing of a derivation encloses what comes after it. -/
theorem Disjunction.enclosers_append (t : Token) (ts : List Token) : (d : Disjunction) →
    t.enclosers (d.tokens ++ ts) = t.enclosers ts
  | .one first => first.enclosers_append t ts
  | .more first rest => by
    rw [Disjunction.tokens, List.append_assoc, List.cons_append, first.enclosers_append,
      enclosers_of_not_encloses (s := .or) id, rest.enclosers_append]

theorem Conjunction.enclosers_append (t : Token) (ts : List Token) : (c : Conjunction) →
    t.enclosers (c.tokens ++ ts) = t.enclosers ts
  | .one first => first.enclosers_append t ts
  | .more first rest => by
    rw [Conjunction.tokens, List.append_assoc, List.cons_append, first.enclosers_append,
      enclosers_of_not_encloses (s := .and) id, rest.enclosers_append]

theorem Unary.enclosers_append (t : Token) (ts : List Token) : (u : Unary) →
    t.enclosers (u.tokens ++ ts) = t.enclosers ts
  | .not inner => by
    rw [Unary.tokens, List.cons_append, enclosers_of_not_encloses (inner.not_encloses ts t),
      inner.enclosers_append]
  | .primary inner => inner.enclosers_append t ts

theorem Primary.enclosers_append (t : Token) (ts : List Token) : (p : Primary) →
    t.enclosers (p.tokens ++ ts) = t.enclosers ts
  | .word _ => enclosers_of_not_encloses id
  | .parens inner => by
    have hclosing : .closing :: ts ++ [t] = .closing :: (ts ++ [t]) := rfl
    have hended := inner.not_encloses hclosing nofun nofun
    rw [Primary.tokens, List.cons_append, List.append_assoc, List.singleton_append,
      enclosers_of_not_encloses hended, inner.enclosers_append,
      enclosers_of_not_encloses (s := .closing) id]
end

theorem Disjunction.enclosers_tokens (t : Token) (d : Disjunction) : t.enclosers d.tokens = [] := by
  rw [← List.append_nil d.tokens, d.enclosers_append]
  rfl

end Derivations

section Continuing

variable {t : Token} {ts us : List Token}

/-- Every expression at the beginning of the tokens goes on, if anything follows it. -/
def GoesOn (ts : List Token) : Prop := ∀ (d : Disjunction) (s : Token) (rest : List Token),
  ts = d.tokens ++ s :: rest → s = .and ∨ s = .or

theorem Disjunction.exists_unary : (d : Disjunction) →
    ∃ (u : Unary) (rest : List Token), d.tokens = u.tokens ++ rest
  | .one (.one u) => ⟨u, [], (List.append_nil _).symm⟩
  | .one (.more u rest) => ⟨u, .and :: rest.tokens, rfl⟩
  | .more (.one u) rest => ⟨u, .or :: rest.tokens, rfl⟩
  | .more (.more u rest) rest' => ⟨u, .and :: rest.tokens ++ .or :: rest'.tokens, by
    simp only [Disjunction.tokens, Conjunction.tokens, List.append_assoc]⟩

/-- Before the end of its first operand no expression has ended. -/
theorem goesOn_of_awaitsMore (h : awaitsMore ts = true) (t : Token) : GoesOn (ts ++ [t]) := by
  intro d s rest hd
  obtain ⟨u, vs, hu⟩ := d.exists_unary
  have hlast : vs ++ s :: rest ≠ [] := by simp
  rw [hu, List.append_assoc] at hd
  have hts := congrArg List.dropLast hd
  rw [List.dropLast_concat, List.dropLast_append_of_ne_nil hlast] at hts
  rw [hts, u.awaitsMore_append] at h
  cases h

theorem Conjunction.goesOn_append (c : Conjunction) (h : GoesOn ts) :
    GoesOn (c.tokens ++ .or :: ts) := by
  intro d s rest hd
  by_cases hand : s = .and
  · exact .inl hand
  · cases d with
    | one first =>
      obtain ⟨-, hrest⟩ :=
        Conjunction.eq_of_tokens_append c first (by simp) (by simpa using hand) hd
      exact .inr (List.cons.inj hrest).1.symm
    | more first d =>
      rw [Disjunction.tokens, List.append_assoc, List.cons_append] at hd
      obtain ⟨-, hrest⟩ := Conjunction.eq_of_tokens_append c first (by simp) (by simp) hd
      exact h d s rest (List.cons.inj hrest).2

theorem Unary.goesOn_append (u : Unary) (h : GoesOn ts) : GoesOn (u.tokens ++ .and :: ts) := by
  intro d s rest hd
  cases d with
  | one first =>
    cases first with
    | one first =>
      obtain ⟨-, hrest⟩ := Unary.eq_of_tokens_append u first hd
      exact .inl (List.cons.inj hrest).1.symm
    | more first c =>
      rw [Disjunction.tokens, Conjunction.tokens, List.append_assoc, List.cons_append] at hd
      obtain ⟨-, hrest⟩ := Unary.eq_of_tokens_append u first hd
      exact h (.one c) s rest (List.cons.inj hrest).2
  | more first d =>
    cases first with
    | one first =>
      rw [Disjunction.tokens, Conjunction.tokens, List.append_assoc, List.cons_append] at hd
      obtain ⟨-, hrest⟩ := Unary.eq_of_tokens_append u first hd
      cases (List.cons.inj hrest).1
    | more first c =>
      simp only [Disjunction.tokens, Conjunction.tokens, List.append_assoc, List.cons_append] at hd
      obtain ⟨-, hrest⟩ := Unary.eq_of_tokens_append u first hd
      refine h (.more c d) s rest ?_
      rw [(List.cons.inj hrest).2, Disjunction.tokens, List.append_assoc, List.cons_append]

theorem Unary.goesOn_concat (u : Unary) (ht : t = .and ∨ t = .or) : GoesOn (u.tokens ++ [t]) := by
  intro d s rest hd
  obtain ⟨first, vs, hfirst⟩ := d.exists_unary
  rw [hfirst, List.append_assoc] at hd
  obtain ⟨-, hrest⟩ := Unary.eq_of_tokens_append u first hd
  cases vs with
  | nil => exact (List.cons.inj hrest).1 ▸ ht
  | cons v vs => cases vs <;> cases (List.cons.inj hrest).2

/-- An expression goes on until one of its tokens is the last. -/
theorem Disjunction.goesOn_of_eq {d : Disjunction} (h : d.tokens = ts ++ t :: us) :
    GoesOn (ts ++ [t]) := by
  intro d' s rest hd'
  by_cases hs : s = .and ∨ s = .or
  · exact hs
  · obtain ⟨hand, hor⟩ := not_or.mp hs
    have htokens : d'.tokens ++ s :: (rest ++ us) = d.tokens ++ [] := by
      rw [List.append_nil, h, List.append_cons ts, hd', List.append_assoc, List.cons_append]
    have hend := (Disjunction.eq_of_tokens_append d' d (by simpa using hand) (by simp)
      (by simpa using hor) (by simp) htokens).2
    cases hend

end Continuing

section Drafts

open Draft

variable {t : Token} {ts : List Token}

/-- What has been read of a level is complete but for the negations that wait. -/
theorem Draft.tokens_append (d : Draft) (ts : List Token) : d.tokens ++ ts =
    d.disjuncts.reverse.flatMap (fun c => c.tokens ++ [.or]) ++
      (d.conjuncts.reverse.flatMap (fun u => u.tokens ++ [.and]) ++
        (List.replicate d.negations .not ++ ts)) := by
  simp only [tokens, List.append_assoc]

/-- What complete terms and the connectives behind them do not change. -/
theorem apply_terms {α : Type} (f : List Token → α) (cs : List Conjunction) (us : List Unary)
    (hcs : ∀ (c : Conjunction) ts, f (c.tokens ++ .or :: ts) = f ts)
    (hus : ∀ (u : Unary) ts, f (u.tokens ++ .and :: ts) = f ts) (ts : List Token) :
    f (cs.flatMap (fun c => c.tokens ++ [.or]) ++
      (us.flatMap (fun u => u.tokens ++ [.and]) ++ ts)) = f ts := by
  induction cs with
  | nil =>
    induction us with
    | nil => rfl
    | cons u us ih =>
      rw [List.flatMap_nil, List.nil_append] at ih ⊢
      rw [List.flatMap_cons, List.append_assoc, List.append_assoc, List.singleton_append, hus, ih]
  | cons c cs ih =>
    rw [List.flatMap_cons, List.append_assoc, List.append_assoc, List.singleton_append, hcs, ih]

theorem Draft.staysOpen_append (d : Draft) (n : Nat) (ts : List Token) :
    staysOpen n (d.tokens ++ ts) = staysOpen n ts := by
  have hnegations (k : Nat) : staysOpen n (List.replicate k .not ++ ts) = staysOpen n ts := by
    induction k with
    | zero => rfl
    | succ k ih => exact ih
  rw [tokens_append, apply_terms (staysOpen n), hnegations]
  · exact fun c ts => c.staysOpen_append n (.or :: ts)
  · exact fun u ts => u.staysOpen_append n (.and :: ts)

theorem awaitsMore_negations (k : Nat) (h : awaitsMore ts = true) :
    awaitsMore (List.replicate k .not ++ ts) = true := by
  induction k with
  | zero => exact h
  | succ k ih => exact ih

/-- Of what has been read of a level, the negations that wait enclose what comes next, if it goes on
with their operand. -/
theorem Draft.enclosers_append (d : Draft) (h : awaitsMore ts = true) (t : Token) :
    t.enclosers (d.tokens ++ ts) = List.replicate d.negations .not ++ t.enclosers ts := by
  have hnegations (k : Nat) : t.enclosers (List.replicate k .not ++ ts) =
      List.replicate k .not ++ t.enclosers ts := by
    induction k with
    | zero => rfl
    | succ k ih =>
      rw [List.replicate_succ, List.cons_append,
        enclosers_of_encloses (encloses_not_of_awaitsMore (awaitsMore_negations k h) t), ih,
        List.cons_append]
  rw [tokens_append, apply_terms t.enclosers, hnegations]
  · intro c ts
    rw [c.enclosers_append, enclosers_of_not_encloses (s := .or) id]
  · intro u ts
    rw [u.enclosers_append, enclosers_of_not_encloses (s := .and) id]

/-- What has been read of a level goes on if what comes behind the last term does. -/
theorem Draft.goesOn_append (d : Draft) (h : GoesOn (List.replicate d.negations .not ++ ts)) :
    GoesOn (d.tokens ++ ts) := by
  rw [tokens_append]
  induction d.disjuncts.reverse with
  | nil =>
    rw [List.flatMap_nil, List.nil_append]
    induction d.conjuncts.reverse with
    | nil => exact h
    | cons u us ih =>
      rw [List.flatMap_cons, List.append_assoc, List.append_assoc, List.singleton_append]
      exact u.goesOn_append ih
  | cons c cs ih =>
    rw [List.flatMap_cons, List.append_assoc, List.append_assoc, List.singleton_append]
    exact c.goesOn_append ih

/-- What the levels around the current one leave open. -/
def Draft.frames : List Draft → List Token
  | [] => []
  | d :: ds => frames ds ++ (List.replicate d.negations .not ++ [.opening])

theorem length_frames (ds : List Draft) : (frames ds).length = depth ds := by
  induction ds with
  | nil => rfl
  | cons d ds ih =>
    rw [frames, List.length_append, List.length_append, List.length_replicate, ih, depth]
    exact (Nat.add_assoc ..).symm

/-- The level goes on behind a parenthesis that has not been closed. -/
theorem Draft.goesOn_opening (d : Draft) (h : staysOpen 0 ts = true) (t : Token) :
    GoesOn (d.tokens ++ .opening :: ts ++ [t]) := by
  have hawaits : awaitsMore (.opening :: ts) = true := h
  have hgoes := goesOn_of_awaitsMore (awaitsMore_negations d.negations hawaits) t
  rw [List.append_assoc] at hgoes ⊢
  exact d.goesOn_append hgoes

theorem enclosers_outside (ds : List Draft) (h : staysOpen 0 ts = true)
    (hgoes : GoesOn (ts ++ [t])) :
    t.enclosers (outside ds ++ ts) = frames ds ++ t.enclosers ts := by
  induction ds generalizing ts with
  | nil => rfl
  | cons d ds ih =>
    have hwithin : staysOpen 0 (d.tokens ++ .opening :: ts) = true := by
      rw [d.staysOpen_append]
      exact staysOpen_succ h
    have hawaits : awaitsMore (.opening :: ts) = true := h
    have hencloses : Token.opening.Encloses ts t := hgoes
    rw [outside, List.append_assoc, List.append_assoc, List.singleton_append,
      ih hwithin (d.goesOn_opening h t), d.enclosers_append hawaits,
      enclosers_of_encloses hencloses, frames]
    simp only [List.append_assoc, List.singleton_append]

variable {r : Reading}

/-- Where an operand is due, the nesting of a reading is the number of negations and parentheses
around it. -/
theorem Reading.Reflects.length_enclosers_of_due (h : Reflects r ts) (hdue : r.termDue = true)
    (t : Token) : (t.enclosers ts).length = r.nesting := by
  cases h with
  | done => cases hdue
  | due enclosing d ds _ _ _ =>
    have hempty : awaitsMore [] = true := rfl
    have hopen := d.staysOpen_append 0 []
    have hawaits := awaitsMore_negations d.negations hempty
    have hown := d.enclosers_append hempty t
    rw [List.append_nil] at hopen hawaits hown
    have hgoes := d.goesOn_append (goesOn_of_awaitsMore hawaits t)
    rw [enclosers_outside ds hopen hgoes, hown, Token.enclosers, List.append_nil,
      List.length_append, length_frames, List.length_replicate]

/-- Before a connective it is so too. -/
theorem Reading.Reflects.length_enclosers_of_connective (h : Reflects r ts)
    (hdone : r.termDue = false) (ht : t = .and ∨ t = .or) :
    (t.enclosers ts).length = r.nesting := by
  cases h with
  | due => cases hdone
  | done enclosing d u ds _ hzero _ _ =>
    have hlast : GoesOn (List.replicate d.negations .not ++ (u.tokens ++ [t])) := by
      rw [hzero]
      exact u.goesOn_concat ht
    have hgoes := d.goesOn_append hlast
    rw [← List.append_assoc, ← Draft.tokens_disjunction hzero u] at hgoes
    rw [← Draft.tokens_disjunction hzero u,
      enclosers_outside ds ((d.disjunction u).staysOpen_tokens 0) hgoes,
      Disjunction.enclosers_tokens, List.append_nil, length_frames]

/-- Before anything else the innermost parenthesis has come to its end. -/
theorem Reading.Reflects.length_enclosers_of_end (h : Reflects r ts) (hdone : r.termDue = false)
    (hand : t ≠ .and) (hor : t ≠ .or) : (t.enclosers ts).length = r.nesting - 1 := by
  cases h with
  | due => cases hdone
  | done enclosing d u ds _ hzero _ _ =>
    rw [← Draft.tokens_disjunction hzero u]
    cases ds with
    | nil => rw [outside, List.nil_append, Disjunction.enclosers_tokens]; rfl
    | cons d' ds =>
      have hwhole := (d.disjunction u).staysOpen_tokens 0
      have hopen : staysOpen 0 (d'.tokens ++ .opening :: (d.disjunction u).tokens) = true := by
        rw [d'.staysOpen_append]
        exact staysOpen_succ hwhole
      have hawaits : awaitsMore (.opening :: (d.disjunction u).tokens) = true := hwhole
      have hends := (d.disjunction u).not_encloses (List.nil_append [t]) hand hor
      rw [List.append_nil] at hends
      rw [outside, List.append_assoc, List.append_assoc, List.singleton_append,
        enclosers_outside ds hopen (d'.goesOn_opening hwhole t), d'.enclosers_append hawaits,
        enclosers_of_not_encloses hends, Disjunction.enclosers_tokens, List.append_nil,
        List.length_append, length_frames, List.length_replicate]
      rfl

/-- Behind an operand outside of all parentheses there is no nesting. -/
theorem Reading.Reflects.nesting_eq_zero (h : Reflects r ts) (hdone : r.termDue = false)
    (houtermost : r.enclosing = []) : r.nesting = 0 := by
  cases h with
  | due => cases hdone
  | done enclosing d u ds henclosing _ _ _ =>
    obtain rfl : enclosing = [] := houtermost
    obtain rfl := List.map_eq_nil_iff.mp henclosing.symm
    rfl

/-- A word that has a place in an expression is no deeper than the bound. -/
theorem IsViable.length_enclosers_le {text : String} (h : IsViable (ts ++ [.word text])) :
    (Token.enclosers (.word text) ts).length ≤ maxNesting := by
  rw [← map_token_placeless ts, ← map_token_placeless [.word text], ← List.map_append] at h
  obtain ⟨r', hr'⟩ := exists_reading_iff.mpr h
  obtain ⟨r, hr, hword⟩ := Reading.exists_of_foldlM_append hr'
  obtain ⟨next, hnext, -⟩ := Reading.exists_of_foldlM_cons hword
  have hreflects := Reading.Reflects.start.foldlM hr
  rw [map_token_placeless, List.nil_append] at hreflects
  cases hdue : r.termDue with
  | true => exact hreflects.length_enclosers_of_due hdue _ ▸ hreflects.nesting_le
  | false =>
    rw [Reading.read_done hdue] at hnext
    cases hnext

end Drafts

end Conformance.Label
