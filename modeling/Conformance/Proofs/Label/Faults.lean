import Conformance.Label.Filter
import Conformance.Proofs.Label.Seams
import Conformance.Proofs.Label.Viability

/-!
Every rejected text has one fault. A character that begins no token comes before all others, then
the lack of any token, then the first token that no sentence has in its place, and last that the
text ends too early, for want of an operand or with a parenthesis open.
-/
namespace Conformance.Label

section Cutting

variable {cs : List Char} {f : Fault}

/-- No token begins with the character: half of a doubled sign, or none of the characters of
which tokens and the gaps between them are made. -/
inductive Offends (after : List Char) : Char → Prop
  | lone {c : Char} (hc : c = '&' ∨ c = '|') (h : after.head? ≠ some c) : Offends after c
  | foreign {c : Char} (hblank : Text.isBlank c = false) (hword : isWordChar c = false)
      (hsign : c ∉ ['(', ')', '!', ',', '&', '|']) : Offends after c

theorem eq_of_doubleSign? {c : Char} {t : Token} (h : doubleSign? c = some t) :
    c = '&' ∨ c = '|' := by
  unfold doubleSign? at h
  split at h
  · exact .inl rfl
  · exact .inr rfl
  · cases h

theorem not_mem_of_no_sign {c : Char} (hs : sign? c = none) (hd : doubleSign? c = none) :
    c ∉ ['(', ')', '!', ',', '&', '|'] := by
  intro hc
  simp only [List.mem_cons, List.not_mem_nil, or_false] at hc
  rcases hc with rfl | rfl | rfl | rfl | rfl | rfl <;> simp [sign?, doubleSign?] at hs hd

theorem Offends.not_word {c : Char} {after : List Char} (h : Offends after c) :
    isWordChar c = false := by
  cases h with
  | lone hc _ => rcases hc with rfl | rfl <;> decide +kernel
  | foreign _ hword _ => exact hword

theorem Offends.lexemesFrom {c : Char} {after : List Char} (h : Offends after c) (position : Nat)
    (read : List Lexeme) :
    lexemesFrom position read (c :: after) = .error (.invalidChar position c) := by
  cases h with
  | lone hc hafter =>
    have hd : ∃ t, doubleSign? c = some t := by rcases hc with rfl | rfl <;> exact ⟨_, rfl⟩
    have hs : sign? c = none := by rcases hc with rfl | rfl <;> rfl
    have hb : Text.isBlank c = false := by rcases hc with rfl | rfl <;> decide
    obtain ⟨t, hd⟩ := hd
    rw [Label.lexemesFrom]
    cases after with
    | nil => simp [hb, hs, hd]
    | cons d after =>
      have hne : d ≠ c := by simpa using hafter
      simp [hb, hs, hd, hne]
  | foreign hblank hword hsign =>
    simp only [List.mem_cons, List.not_mem_nil, or_false, not_or] at hsign
    obtain ⟨hopening, hclosing, hnot, hcomma, hampersand, hbar⟩ := hsign
    have hs : sign? c = none := by
      unfold sign?
      split <;> first | rfl | contradiction
    have hd : doubleSign? c = none := by
      unfold doubleSign?
      split <;> first | rfl | contradiction
    rw [Label.lexemesFrom]
    simp [hblank, hs, hd, hword]

/-- A text that cannot be cut has a character that offends behind tokens. -/
theorem exists_offends {position : Nat} {read : List Lexeme}
    (h : lexemesFrom position read cs = .error f) :
    ∃ before c after ts, cs = before ++ c :: after ∧ Spells before ts ∧ Offends after c ∧
      f = .invalidChar (position + byteLength before) c := by
  fun_induction lexemesFrom position read cs with
  | case1 => cases h
  | case2 position read c rest hb ih =>
    obtain ⟨before, d, after, ts, rfl, hts, hd, rfl⟩ := ih h
    refine ⟨c :: before, d, after, ts, rfl, .blank hb hts, hd, ?_⟩
    rw [byteLength, Nat.add_assoc]
  | case3 position read c rest hb token hs ih =>
    obtain ⟨before, d, after, ts, rfl, hts, hd, rfl⟩ := ih h
    refine ⟨c :: before, d, after, token :: ts, rfl, .sign hs hts, hd, ?_⟩
    rw [byteLength, Nat.add_assoc]
  | case4 position read c hb token hd hs =>
    cases h
    exact ⟨[], c, [], [], rfl, .nil, .lone (eq_of_doubleSign? hd) (by simp), rfl⟩
  | case5 position read token c rest hb hd hs ih =>
    obtain ⟨before, d, after, ts, rfl, hts, ho, rfl⟩ := ih h
    refine ⟨c :: c :: before, d, after, token :: ts, rfl, .doubleSign hd hts, ho, ?_⟩
    simp only [byteLength, Nat.two_mul, Nat.add_assoc]
  | case6 position read c hb token hd d rest hne hs =>
    cases h
    refine ⟨[], c, d :: rest, [], rfl, .nil, .lone (eq_of_doubleSign? hd) ?_, rfl⟩
    rwa [List.head?_cons, ne_eq, Option.some.injEq]
  | case7 position read c rest hb hc word hs hd ih =>
    obtain ⟨before, d, after, ts, hrest, hts, ho, rfl⟩ := ih h
    have hw : ∀ d ∈ word, isWordChar d = true := by
      intro d hd
      rcases List.mem_cons.mp hd with rfl | hd
      · exact hc
      · exact List.all_eq_true.mp List.all_takeWhile d hd
    have hend : ∀ d ∈ before.head?, isWordChar d = false := by
      intro d hd
      refine head?_dropWhile_isWordChar rest d ?_
      rw [hrest]
      exact List.mem_head?_append_of_mem_head? hd
    refine ⟨word ++ before, d, after, _, ?_, Spells.word hw hend hts, ho, ?_⟩
    · rw [List.append_assoc, ← hrest, List.cons_append, List.takeWhile_append_dropWhile]
    · rw [byteLength_append, Nat.add_assoc]
  | case8 position read c rest hb hw hs hd =>
    cases h
    refine ⟨[], c, rest, [], rfl, .nil, .foreign ?_ ?_ ?_, rfl⟩
    · exact Bool.eq_false_iff.mpr hb
    · exact Bool.eq_false_iff.mpr hw
    · exact not_mem_of_no_sign (Option.eq_none_iff_forall_ne_some.mpr hs)
        (Option.eq_none_iff_forall_ne_some.mpr hd)

theorem lexemes_of_offends {text : String} {before after : List Char} {c : Char}
    {ts : List Token} (htext : text.toList = before ++ c :: after) (hts : Spells before ts)
    (hc : Offends after c) : lexemes text = .error (.invalidChar (byteLength before) c) := by
  have hseam : Seam before (c :: after) := by
    refine seam_of_head fun d hd => ?_
    obtain rfl : c = d := by simpa using hd
    exact hc.not_word
  obtain ⟨ls, -, hls⟩ := lexemesFrom_append hts hseam 0 []
  rw [lexemes, htext, hls, hc.lexemesFrom, Nat.zero_add]

end Cutting

section Reading

open Reading

variable {r r' : Reading} {ls : List Lexeme} {l : Lexeme} {ts us ts' us' : List Token}

/-- What is said of a token that no sentence has in its place. -/
inductive Refuses (ts : List Token) (position : Nat) (t : Token) : Fault → Prop
  | tooDeep (hdue : OperandDue ts) (ht : t = .not ∨ t = .opening)
      (hdeep : Encloses maxNesting ts) : Refuses ts position t (.tooDeep position)
  | unbalanced (hwhole : IsSentence ts) (ht : t = .closing) :
      Refuses ts position t (.unbalancedParen position)
  | unexpected (hroom : ¬(OperandDue ts ∧ (t = .not ∨ t = .opening) ∧ Encloses maxNesting ts))
      (hopen : ¬(IsSentence ts ∧ t = .closing)) :
      Refuses ts position t (.unexpectedToken position t)

theorem Refuses.unique {position : Nat} {t : Token} {f f' : Fault} (h : Refuses ts position t f)
    (h' : Refuses ts position t f') : f = f' := by
  cases h with
  | tooDeep hdue ht hdeep =>
    cases h' with
    | tooDeep => rfl
    | unbalanced _ ht' => rcases ht with rfl | rfl <;> cases ht'
    | unexpected hroom _ => exact absurd ⟨hdue, ht, hdeep⟩ hroom
  | unbalanced hwhole ht =>
    cases h' with
    | tooDeep _ ht' _ => rcases ht' with rfl | rfl <;> cases ht
    | unbalanced => rfl
    | unexpected _ hopen => exact absurd ⟨hwhole, ht⟩ hopen
  | unexpected hroom hopen =>
    cases h' with
    | tooDeep hdue ht hdeep => exact absurd ⟨hdue, ht, hdeep⟩ hroom
    | unbalanced hwhole ht => exact absurd ⟨hwhole, ht⟩ hopen
    | unexpected => rfl

theorem Reading.isSentence_iff (h : ls.foldlM read start = .ok r) :
    IsSentence (ls.map Lexeme.token) ↔ r.termDue = false ∧ r.enclosing = [] := by
  constructor
  · rintro ⟨d, htokens, hn⟩
    have hwhole : Expr.ofLexemes ls = .ok d.expr := d.ofLexemes hn htokens.symm
    have hne : ls ≠ [] := by
      rintro rfl
      cases hwhole
    rw [Expr.ofLexemes_eq_toEnd hne, toEnd, h] at hwhole
    change r.finish = .ok d.expr at hwhole
    unfold finish at hwhole
    split at hwhole
    · cases hwhole
    · next hdue =>
      split at hwhole
      · next henclosing => exact ⟨Bool.eq_false_iff.mpr hdue, henclosing⟩
      · cases hwhole
  · rintro ⟨hdone, henclosing⟩
    have hend : r.finish = .ok r.level.expr := by
      rw [finish, henclosing, hdone]
      rfl
    obtain ⟨d, htokens, hn, -⟩ := (Reflects.start.foldlM h).finish hend
    exact ⟨d, htokens, hn⟩

/-- A reading refuses a token for the reason that its place gives. -/
theorem Reading.refuses_of_read (h : ls.foldlM read start = .ok r) {f : Fault}
    (hread : r.read l = .error f) : Refuses (ls.map Lexeme.token) l.position l.token f := by
  have hsentence := isSentence_iff h
  have hoperand := termDue_iff h
  cases hdue : r.termDue with
  | true =>
    rw [hdue] at hsentence hoperand
    have hdeep (hn : ¬r.nesting < maxNesting) : Encloses maxNesting (ls.map Lexeme.token) :=
      (encloses_iff h hdue).mpr
        (Nat.le_antisymm (Reflects.start.foldlM h).nesting_le (Nat.le_of_not_lt hn))
    rw [read_due hdue, readTerm] at hread
    split at hread
    · cases hread
    · next hl =>
      split at hread <;> cases hread
      exact .tooDeep (hoperand.mp rfl) (.inl hl) (hdeep ‹_›)
    · next hl =>
      split at hread <;> cases hread
      exact .tooDeep (hoperand.mp rfl) (.inr hl) (hdeep ‹_›)
    · next hnot hopening =>
      cases hread
      refine .unexpected ?_ ?_
      · rintro ⟨-, hl | hl, -⟩
        · exact hnot hl
        · exact hopening hl
      · rintro ⟨hwhole, -⟩
        cases (hsentence.mp hwhole).1
  | false =>
    rw [hdue] at hsentence hoperand
    have hroom (t : Token) : ¬(OperandDue (ls.map Lexeme.token) ∧ (t = .not ∨ t = .opening) ∧
        Encloses maxNesting (ls.map Lexeme.token)) :=
      fun h => Bool.noConfusion (hoperand.mpr h.1)
    rw [read_done hdue, readConnective] at hread
    split at hread
    · cases hread
    · cases hread
    · cases hread
    · next hl henclosing =>
      cases hread
      exact .unbalanced (hsentence.mpr ⟨rfl, henclosing⟩) hl
    · next hcons hnil =>
      cases hread
      refine .unexpected (hroom _) ?_
      rintro ⟨-, hl⟩
      cases henclosing : r.enclosing with
      | nil => exact hnil hl henclosing
      | cons around rest => exact hcons _ _ _ hl henclosing

/-- The places of the open parentheses, the innermost first, and what stands behind each. -/
inductive Opened : List (Nat × Level) → List Lexeme → Prop
  | nil {ls : List Lexeme} (h : Balanced (ls.map Lexeme.token)) : Opened [] ls
  | cons {enclosing : List (Nat × Level)} {ls ms : List Lexeme} {l : Lexeme} {level : Level}
      (h : Opened enclosing ls) (hl : l.token = .opening)
      (hinner : Balanced (ms.map Lexeme.token)) :
      Opened ((l.position, level) :: enclosing) (ls ++ l :: ms)

namespace Opened

variable {enclosing : List (Nat × Level)}

theorem token (h : Opened enclosing ls) (hopening : l.token ≠ .opening)
    (hclosing : l.token ≠ .closing) : Opened enclosing (ls ++ [l]) := by
  cases h with
  | nil h =>
    refine .nil ?_
    rw [List.map_append]
    exact h.token hopening hclosing
  | cons h hl hinner =>
    rw [List.append_assoc, List.cons_append]
    refine .cons h hl ?_
    rw [List.map_append]
    exact hinner.token hopening hclosing

/-- A pair of parentheses stands inside those that are open before it. -/
theorem group {ms : List Lexeme} {m : Lexeme} (h : Opened enclosing ls) (hl : l.token = .opening)
    (hms : Balanced (ms.map Lexeme.token)) (hm : m.token = .closing) :
    Opened enclosing (ls ++ l :: ms ++ [m]) := by
  have hgroup {ts : List Token} (hts : Balanced ts) :
      Balanced (ts ++ (l :: ms ++ [m]).map Lexeme.token) := by
    rw [List.cons_append, List.map_cons, List.map_append, List.map_singleton, hl, hm]
    exact hts.group hms
  cases h with
  | nil h =>
    refine .nil ?_
    rw [List.append_assoc, List.map_append]
    exact hgroup h
  | cons h hl' hinner =>
    rw [List.append_assoc, List.append_assoc, List.cons_append]
    refine .cons h hl' ?_
    rw [List.map_append]
    exact hgroup hinner

theorem read (h : Opened r.enclosing ls) (hread : r.read l = .ok r') :
    Opened r'.enclosing (ls ++ [l]) := by
  cases reads_of_read hread with
  | word _ hl | not _ hl _ | and _ hl | or _ hl => exact h.token (by simp [hl]) (by simp [hl])
  | opening _ hl _ => exact .cons h hl .nil
  | closing _ hl he =>
    rw [he] at h
    cases h with
    | cons h hopening hinner => exact h.group hopening hinner hl

theorem foldlM {ms : List Lexeme} (h : Opened r.enclosing ls)
    (hread : ms.foldlM Reading.read r = .ok r') : Opened r'.enclosing (ls ++ ms) := by
  induction ms generalizing r ls with
  | nil =>
    cases hread
    rwa [List.append_nil]
  | cons m ms ih =>
    obtain ⟨next, hm, hms⟩ := exists_of_foldlM_cons hread
    rw [← List.singleton_append, ← List.append_assoc]
    exact ih (h.read hm) hms

end Opened

private theorem not_longer (h : ts ++ .opening :: us = ts' ++ .opening :: us')
    (hus : Balanced us) (hus' : Balanced us') : ¬ts.length < ts'.length := by
  intro hlt
  obtain ⟨vs, rfl, hvs⟩ | ⟨vs, rfl, hvs⟩ := List.append_eq_append_iff.mp h
  · cases vs with
    | nil => simp at hlt
    | cons first vs =>
      obtain ⟨-, rfl⟩ := List.cons.inj hvs
      have hcount := hus.count_le (List.suffix_append vs (.opening :: us'))
      have heq := hus'.count_eq
      rw [List.count_cons_self, List.count_cons_of_ne (by decide)] at hcount
      omega
  · rw [List.length_append] at hlt
    omega

/-- Only one parenthesis has no partner and none without one behind it. -/
theorem innermost_unique (h : ts ++ .opening :: us = ts' ++ .opening :: us')
    (hus : Balanced us) (hus' : Balanced us') : ts.length = ts'.length :=
  Nat.le_antisymm (Nat.le_of_not_lt (not_longer h.symm hus' hus))
    (Nat.le_of_not_lt (not_longer h hus hus'))

theorem Reading.opened (h : ls.foldlM read start = .ok r) : Opened r.enclosing ls := by
  simpa using (Opened.nil .nil : Opened [] []).foldlM (r := start) h

/-- The innermost open parenthesis is the one with no other open behind it. -/
theorem Reading.position_of_innermost {ms : List Lexeme} {around : Nat × Level}
    {enclosing : List (Nat × Level)} (h : (ls ++ l :: ms).foldlM read start = .ok r)
    (hl : l.token = .opening) (hinner : Balanced (ms.map Lexeme.token))
    (henclosing : r.enclosing = around :: enclosing) : around.1 = l.position := by
  have hopened := opened h
  rw [henclosing] at hopened
  generalize hall : ls ++ l :: ms = all at hopened
  cases hopened with
  | @cons _ front behind m level _ hm hinner' =>
    have htokens := congrArg (List.map Lexeme.token) hall
    rw [List.map_append, List.map_append, List.map_cons, List.map_cons, hl, hm] at htokens
    have hlength := innermost_unique htokens hinner hinner'
    rw [List.length_map, List.length_map] at hlength
    obtain ⟨-, hlast⟩ := List.append_inj hall hlength
    exact congrArg Lexeme.position (List.cons.inj hlast).1.symm

end Reading

section Texts

open Reading

variable {text : String} {ls : List Lexeme} {f : Fault}

/-- The fault of a text that is no filter, the first that applies. Places are counted in bytes. -/
inductive Rejects (text : String) : Fault → Prop
  | invalidChar {before after : List Char} {c : Char} {ts : List Token}
      (htext : text.toList = before ++ c :: after) (hbefore : Spells before ts)
      (hc : Offends after c) : Rejects text (.invalidChar (String.ofList before).utf8ByteSize c)
  | empty (h : Spells text.toList []) : Rejects text .empty
  | refused {before rest : List Char} {ts us : List Token} {t : Token} {f : Fault}
      (h : Division text.toList before rest ts (t :: us)) (hviable : IsViable ts)
      (hnot : ¬IsViable (ts ++ [t])) (hf : Refuses ts (String.ofList before).utf8ByteSize t f) :
      Rejects text f
  | unexpectedEnd {ts : List Token} (h : Spells text.toList ts) (hne : ts ≠ [])
      (hviable : IsViable ts) (hpart : ¬IsSentence ts) (hdue : OperandDue ts) :
      Rejects text .unexpectedEnd
  | unclosed {before rest : List Char} {ts us : List Token}
      (h : Division text.toList before rest ts (.opening :: us))
      (hviable : IsViable (ts ++ .opening :: us)) (hpart : ¬IsSentence (ts ++ .opening :: us))
      (hdone : ¬OperandDue (ts ++ .opening :: us)) (hinner : Balanced us) :
      Rejects text (.unbalancedParen (String.ofList before).utf8ByteSize)

theorem parse_eq_error_of_lexemes (h : lexemes text = .error f) :
    Filter.parse text = .error f := by
  rw [Filter.parse, h]
  rfl

theorem parse_eq_error_iff_of_lexemes (h : lexemes text = .ok ls) :
    Filter.parse text = .error f ↔ Expr.ofLexemes ls = .error f := by
  rw [Filter.parse, h]
  change (Expr.ofLexemes ls).bind _ = .error f ↔ _
  cases Expr.ofLexemes ls with
  | error fault => exact ⟨fun h => by cases h; rfl, fun h => by cases h; rfl⟩
  | ok root => exact ⟨nofun, nofun⟩

theorem ofLexemes_of_refused {before after : List Lexeme} {l : Lexeme} {r : Reading}
    (hr : before.foldlM read start = .ok r) (hread : r.read l = .error f) :
    Expr.ofLexemes (before ++ l :: after) = .error f := by
  rw [Expr.ofLexemes_eq_toEnd (by simp), toEnd, foldlM_append hr, List.foldlM_cons, hread]
  rfl

theorem ofLexemes_of_foldlM {r : Reading} (hne : ls ≠ []) (hr : ls.foldlM read start = .ok r) :
    Expr.ofLexemes ls = r.finish := by
  rw [Expr.ofLexemes_eq_toEnd hne, toEnd, hr]
  rfl

/-- A reading that stops has stopped at one of the lexemes. -/
theorem exists_refused {r : Reading} (h : ls.foldlM read r = .error f) :
    ∃ before l after r', ls = before ++ l :: after ∧ before.foldlM read r = .ok r' ∧
      r'.read l = .error f := by
  induction ls generalizing r with
  | nil => cases h
  | cons l ls ih =>
    cases hl : r.read l with
    | error fault =>
      rw [List.foldlM_cons, hl] at h
      cases h
      exact ⟨[], l, ls, r, rfl, rfl, hl⟩
    | ok next =>
      rw [foldlM_cons hl] at h
      obtain ⟨before, m, after, r', rfl, hbefore, hm⟩ := ih h
      exact ⟨l :: before, m, after, r', rfl, by rwa [foldlM_cons hl], hm⟩

/-- The tokens before a refused one have a sentence, and with it they have none. -/
theorem isViable_of_refused {before : List Lexeme} {l : Lexeme} {r : Reading}
    (hr : before.foldlM read start = .ok r) (hread : r.read l = .error f) :
    IsViable (before.map Lexeme.token) ∧ ¬IsViable (before.map Lexeme.token ++ [l.token]) := by
  refine ⟨exists_reading_iff.mp ⟨r, hr⟩, fun hviable => ?_⟩
  rw [← List.map_singleton, ← List.map_append] at hviable
  obtain ⟨r', hr'⟩ := exists_reading_iff.mpr hviable
  rw [foldlM_append hr, List.foldlM_cons, hread] at hr'
  cases hr'

theorem rejects_of_parse (h : Filter.parse text = .error f) : Rejects text f := by
  cases hls : lexemes text with
  | error fault =>
    rw [parse_eq_error_of_lexemes hls] at h
    cases h
    obtain ⟨before, c, after, ts, htext, hts, hc, rfl⟩ := exists_offends hls
    rw [Nat.zero_add, byteLength_eq]
    exact .invalidChar htext hts hc
  | ok ls =>
    have hspells := (exists_lexemes_iff text _).mp ⟨ls, hls, rfl⟩
    rw [parse_eq_error_iff_of_lexemes hls] at h
    by_cases hne : ls = []
    · subst hne
      cases h
      exact .empty hspells
    · cases hr : ls.foldlM read start with
      | error fault =>
        obtain ⟨before, l, after, r, rfl, hbefore, hread⟩ := exists_refused hr
        rw [ofLexemes_of_refused hbefore hread] at h
        cases h
        obtain ⟨cs, ds, hdivision, hposition⟩ := exists_division_of_lexemes hls
        obtain ⟨hviable, hnot⟩ := isViable_of_refused hbefore hread
        have hrefuses := refuses_of_read hbefore hread
        rw [hposition, byteLength_eq] at hrefuses
        exact .refused hdivision hviable hnot hrefuses
      | ok r =>
        rw [ofLexemes_of_foldlM hne hr] at h
        have hviable := exists_reading_iff.mp ⟨r, hr⟩
        have hsentence := isSentence_iff hr
        have hoperand := termDue_iff hr
        unfold finish at h
        split at h
        · next hdue =>
          cases h
          refine .unexpectedEnd hspells (by simpa using hne) hviable ?_ (hoperand.mp hdue)
          intro hwhole
          rw [(hsentence.mp hwhole).1] at hdue
          cases hdue
        · next hdone =>
          split at h
          · cases h
          · next position level enclosing henclosing =>
            cases h
            have hopened := opened hr
            rw [henclosing] at hopened
            cases hopened with
            | @cons enclosing before after l level _ hl hinner =>
              obtain ⟨cs, ds, hdivision, hposition⟩ := exists_division_of_lexemes hls
              rw [List.map_append, List.map_cons, hl] at hviable hsentence hoperand
              rw [hl] at hdivision
              rw [hposition, byteLength_eq]
              refine .unclosed hdivision hviable ?_ (fun hdue => hdone (hoperand.mpr hdue)) hinner
              intro hwhole
              rw [(hsentence.mp hwhole).2] at henclosing
              cases henclosing

theorem parse_of_rejects (h : Rejects text f) : Filter.parse text = .error f := by
  cases h with
  | invalidChar htext hbefore hc =>
    rw [← byteLength_eq]
    exact parse_eq_error_of_lexemes (lexemes_of_offends htext hbefore hc)
  | empty h =>
    obtain ⟨ls, hls, hnil⟩ := (exists_lexemes_iff text []).mpr h
    obtain rfl := List.map_eq_nil_iff.mp hnil
    exact (parse_eq_error_iff_of_lexemes hls).mpr rfl
  | @refused before _ _ _ t _ h hviable hnot hf =>
    obtain ⟨ls, ms, hls, rfl, -⟩ := h.lexemes
    obtain ⟨r, hr⟩ := exists_reading_iff.mpr hviable
    refine (parse_eq_error_iff_of_lexemes hls).mpr ?_
    let l : Lexeme := ⟨byteLength before, t⟩
    cases hread : r.read l with
    | ok next =>
      have hlonger : (ls ++ [l]).foldlM read start = .ok next := by
        rw [foldlM_append hr, foldlM_cons hread]
        rfl
      have hviable' := exists_reading_iff.mp ⟨next, hlonger⟩
      rw [List.map_append] at hviable'
      exact absurd hviable' hnot
    | error fault =>
      have hrefuses := refuses_of_read hr hread
      rw [← byteLength_eq] at hf
      rw [ofLexemes_of_refused hr hread, hf.unique hrefuses]
  | unexpectedEnd h hne hviable hpart hdue =>
    obtain ⟨ls, hls, rfl⟩ := (exists_lexemes_iff text _).mpr h
    obtain ⟨r, hr⟩ := exists_reading_iff.mpr hviable
    refine (parse_eq_error_iff_of_lexemes hls).mpr ?_
    rw [ofLexemes_of_foldlM (by simpa using hne) hr, finish, (termDue_iff hr).mpr hdue]
    rfl
  | @unclosed before _ _ _ h hviable hpart hdone hinner =>
    obtain ⟨ls, ms, hls, rfl, rfl⟩ := h.lexemes
    have htokens : (ls ++ ⟨byteLength before, .opening⟩ :: ms).map Lexeme.token =
        ls.map Lexeme.token ++ .opening :: ms.map Lexeme.token := by
      rw [List.map_append, List.map_cons]
    rw [← htokens] at hviable hpart hdone
    obtain ⟨r, hr⟩ := exists_reading_iff.mpr hviable
    have hdue : r.termDue = false := Bool.eq_false_iff.mpr fun h => hdone ((termDue_iff hr).mp h)
    refine (parse_eq_error_iff_of_lexemes hls).mpr ?_
    rw [ofLexemes_of_foldlM (by simp) hr, finish, hdue]
    cases henclosing : r.enclosing with
    | nil => exact absurd ((isSentence_iff hr).mpr ⟨hdue, henclosing⟩) hpart
    | cons around enclosing =>
      obtain ⟨position, level⟩ := around
      obtain rfl : position = byteLength before :=
        position_of_innermost hr rfl hinner henclosing
      rw [byteLength_eq]
      rfl

/-- The words of a text are of word characters, at least one. -/
theorem Spells.word_of_mem {cs : List Char} {ts : List Token} {text : String} (h : Spells cs ts)
    (ht : .word text ∈ ts) :
    ∃ c w, text = String.ofList (c :: w) ∧ ∀ d ∈ c :: w, isWordChar d = true := by
  induction h with
  | nil => cases ht
  | blank _ _ ih => exact ih ht
  | opening _ ih | closing _ ih | not _ ih | comma _ ih | bars _ ih | ampersands _ ih =>
    exact ih (by simpa using ht)
  | @word c w cs ts hw _ _ ih =>
    rcases List.mem_cons.mp ht with hfirst | ht
    · cases hfirst
      exact ⟨c, w, rfl, hw⟩
    · exact ih ht

/-- The canonical text of a token spells it, without a comma. -/
theorem Spells.spells_text {cs : List Char} {ts : List Token} {t : Token} (h : Spells cs ts)
    (ht : t ∈ ts) : Spells t.text.toList [t] ∧ ',' ∉ t.text.toList := by
  cases t with
  | word text =>
    obtain ⟨c, w, rfl, hw⟩ := h.word_of_mem ht
    rw [Token.text, String.toList_ofList]
    exact ⟨spells_word hw, fun hcomma => absurd (hw _ hcomma) (by decide +kernel)⟩
  | and => exact ⟨.ampersands .nil, by decide⟩
  | or => exact ⟨.bars .nil, by decide⟩
  | not => exact ⟨.not .nil, by decide⟩
  | opening => exact ⟨.opening .nil, by decide⟩
  | closing => exact ⟨.closing .nil, by decide⟩

/-- A rejected text gets the one fault that it has, and a fault that shows a token shows it as it
is spelled without commas. -/
theorem faults_are_exact (text : String) (f : Fault) :
    (Filter.parse text = .error f ↔ Rejects text f) ∧
    ∀ position t, Filter.parse text = .error (.unexpectedToken position t) →
      ∃ shown : String, Fault.message (.unexpectedToken position t) =
          "unexpected token '" ++ shown ++ "' at position " ++ toString position ∧
        Spells shown.toList [t] ∧ ',' ∉ shown.toList := by
  refine ⟨⟨rejects_of_parse, parse_of_rejects⟩, fun position t h => ⟨t.text, rfl, ?_⟩⟩
  cases rejects_of_parse h with
  | refused hdivision _ _ hf =>
    cases hf
    exact hdivision.spells.spells_text (List.mem_append_right _ List.mem_cons_self)

end Texts

end Conformance.Label
