import Conformance.Label.Token
import Conformance.Proofs.Text.Runs

/-!
Which texts spell which tokens. White space only separates, a comma and a doubled bar are one
token, and a word goes on for as long as word characters stand there. Cutting a text into lexemes
succeeds exactly for the texts that spell some tokens, and finds the only tokens they spell.
-/
namespace Conformance.Label

inductive Spells : List Char → List Token → Prop
  | nil : Spells [] []
  | blank {c : Char} {cs : List Char} {ts : List Token} (hc : Text.isBlank c = true)
      (h : Spells cs ts) : Spells (c :: cs) ts
  | opening {cs : List Char} {ts : List Token} (h : Spells cs ts) :
      Spells ('(' :: cs) (.opening :: ts)
  | closing {cs : List Char} {ts : List Token} (h : Spells cs ts) :
      Spells (')' :: cs) (.closing :: ts)
  | not {cs : List Char} {ts : List Token} (h : Spells cs ts) : Spells ('!' :: cs) (.not :: ts)
  | comma {cs : List Char} {ts : List Token} (h : Spells cs ts) : Spells (',' :: cs) (.or :: ts)
  | bars {cs : List Char} {ts : List Token} (h : Spells cs ts) :
      Spells ('|' :: '|' :: cs) (.or :: ts)
  | ampersands {cs : List Char} {ts : List Token} (h : Spells cs ts) :
      Spells ('&' :: '&' :: cs) (.and :: ts)
  | word {c : Char} {w cs : List Char} {ts : List Token}
      (hw : ∀ d ∈ c :: w, isWordChar d = true) (hend : ∀ d ∈ cs.head?, isWordChar d = false)
      (h : Spells cs ts) : Spells (c :: w ++ cs) (.word (String.ofList (c :: w)) :: ts)

theorem exists_range_of_inRanges {ranges : List (Nat × Nat)} {n : Nat}
    (h : Text.inRanges ranges n = true) : ∃ r ∈ ranges, r.1 ≤ n ∧ n ≤ r.2 := by
  induction ranges with
  | nil => simp [Text.inRanges] at h
  | cons range rest ih =>
    obtain ⟨first, last⟩ := range
    simp only [Text.inRanges] at h
    split at h
    · simp at h
    · next hfirst =>
      rcases Bool.or_eq_true_iff.mp h with hlast | hrest
      · exact ⟨(first, last), List.mem_cons_self .., by omega, by simpa using hlast⟩
      · obtain ⟨r, hr, hn⟩ := ih hrest
        exact ⟨r, List.mem_cons_of_mem _ hr, hn⟩

private theorem blankRanges_not_alphanumeric : ∀ r ∈ Text.blankRanges, ∀ k < r.2 - r.1 + 1,
    Text.inRanges Text.alphanumericRanges (r.1 + k) = false := by decide +kernel

/-- The tables of white space and of letters and digits share no code point. -/
theorem isAlphanumeric_of_isBlank {c : Char} (h : Text.isBlank c = true) :
    Text.isAlphanumeric c = false := by
  obtain ⟨r, hr, hfirst, hlast⟩ := exists_range_of_inRanges h
  have hsame : r.1 + (c.toNat - r.1) = c.toNat := by omega
  have hk := blankRanges_not_alphanumeric r hr (c.toNat - r.1) (by omega)
  rwa [hsame] at hk

theorem isWordChar_of_isBlank {c : Char} (h : Text.isBlank c = true) : isWordChar c = false := by
  have hsign : c ≠ '_' ∧ c ≠ '-' ∧ c ≠ '.' := by
    refine ⟨?_, ?_, ?_⟩ <;> rintro rfl <;> exact absurd h (by decide)
  simp [isWordChar, isAlphanumeric_of_isBlank h, hsign]

theorem isBlank_of_isWordChar {c : Char} (h : isWordChar c = true) : Text.isBlank c = false := by
  refine Bool.eq_false_iff.mpr fun hb => ?_
  rw [isWordChar_of_isBlank hb] at h
  exact absurd h (by decide)

theorem sign?_of_isWordChar {c : Char} (h : isWordChar c = true) : sign? c = none := by
  unfold sign?
  split <;> first | rfl | exact absurd h (by decide +kernel)

theorem doubleSign?_of_isWordChar {c : Char} (h : isWordChar c = true) :
    doubleSign? c = none := by
  unfold doubleSign?
  split <;> first | rfl | exact absurd h (by decide +kernel)

section Cutting

variable {position : Nat} {read : List Lexeme} {cs : List Char}

theorem lexemesFrom_blank {c : Char} (hc : Text.isBlank c = true) :
    lexemesFrom position read (c :: cs) = lexemesFrom (position + c.utf8Size) read cs := by
  rw [lexemesFrom]
  simp [hc]

theorem lexemesFrom_sign {c : Char} {token : Token} (hb : Text.isBlank c = false)
    (hs : sign? c = some token) : lexemesFrom position read (c :: cs) =
      lexemesFrom (position + c.utf8Size) (⟨position, token⟩ :: read) cs := by
  rw [lexemesFrom]
  simp [hb, hs]

theorem lexemesFrom_doubleSign {c : Char} {token : Token} (hb : Text.isBlank c = false)
    (hs : sign? c = none) (hd : doubleSign? c = some token) :
    lexemesFrom position read (c :: c :: cs) =
      lexemesFrom (position + 2 * c.utf8Size) (⟨position, token⟩ :: read) cs := by
  rw [lexemesFrom]
  simp [hb, hs, hd]

theorem lexemesFrom_word {c : Char} {w : List Char} (hw : ∀ d ∈ c :: w, isWordChar d = true)
    (hend : ∀ d ∈ cs.head?, isWordChar d = false) :
    lexemesFrom position read (c :: w ++ cs) =
      lexemesFrom (position + byteLength (c :: w))
        (⟨position, .word (String.ofList (c :: w))⟩ :: read) cs := by
  have hc : isWordChar c = true := hw c (List.mem_cons_self ..)
  obtain ⟨htake, hdrop⟩ :=
    Text.span_append (fun d hd => hw d (List.mem_cons_of_mem _ hd)) hend
  rw [List.cons_append, lexemesFrom]
  simp [hc, isBlank_of_isWordChar hc, sign?_of_isWordChar hc, doubleSign?_of_isWordChar hc,
    htake, hdrop]

private theorem cut_cons {text : List Char} {position' : Nat} {lexeme : Lexeme} {ts : List Token}
    (hstep : lexemesFrom position read text = lexemesFrom position' (lexeme :: read) cs)
    (ih : ∀ position read, ∃ ls, lexemesFrom position read cs = .ok (read.reverse ++ ls) ∧
      ls.map Lexeme.token = ts) :
    ∃ ls, lexemesFrom position read text = .ok (read.reverse ++ ls) ∧
      ls.map Lexeme.token = lexeme.token :: ts := by
  obtain ⟨ls, hls, hts⟩ := ih position' (lexeme :: read)
  refine ⟨lexeme :: ls, ?_, by rw [List.map_cons, hts]⟩
  rw [hstep, hls]
  simp only [List.reverse_cons, List.append_assoc, List.singleton_append]

/-- A text that spells tokens is cut into lexemes of these tokens. -/
theorem lexemesFrom_of_spells {ts : List Token} (h : Spells cs ts) (position : Nat)
    (read : List Lexeme) : ∃ ls, lexemesFrom position read cs = .ok (read.reverse ++ ls) ∧
      ls.map Lexeme.token = ts := by
  induction h generalizing position read with
  | nil => exact ⟨[], by rw [lexemesFrom, List.append_nil], rfl⟩
  | blank hc _ ih =>
    obtain ⟨ls, hls, hts⟩ := ih _ read
    exact ⟨ls, (lexemesFrom_blank hc).trans hls, hts⟩
  | opening _ ih => exact cut_cons (lexemesFrom_sign (by decide) rfl) ih
  | closing _ ih => exact cut_cons (lexemesFrom_sign (by decide) rfl) ih
  | not _ ih => exact cut_cons (lexemesFrom_sign (by decide) rfl) ih
  | comma _ ih => exact cut_cons (lexemesFrom_sign (by decide) rfl) ih
  | bars _ ih => exact cut_cons (lexemesFrom_doubleSign (by decide) rfl rfl) ih
  | ampersands _ ih => exact cut_cons (lexemesFrom_doubleSign (by decide) rfl rfl) ih
  | word hw hend _ ih => exact cut_cons (lexemesFrom_word hw hend) ih

theorem Spells.sign {c : Char} {token : Token} {ts : List Token} (hs : sign? c = some token)
    (h : Spells cs ts) : Spells (c :: cs) (token :: ts) := by
  unfold sign? at hs
  split at hs <;> cases hs
  · exact .opening h
  · exact .closing h
  · exact .not h
  · exact .comma h

theorem Spells.doubleSign {c : Char} {token : Token} {ts : List Token}
    (hs : doubleSign? c = some token) (h : Spells cs ts) :
    Spells (c :: c :: cs) (token :: ts) := by
  unfold doubleSign? at hs
  split at hs <;> cases hs
  · exact .ampersands h
  · exact .bars h

theorem head?_dropWhile_isWordChar (cs : List Char) :
    ∀ d ∈ (cs.dropWhile isWordChar).head?, isWordChar d = false := by
  intro d hd
  have := List.head?_dropWhile_not isWordChar cs
  rw [Option.mem_def.mp hd] at this
  simpa using this

/-- A text that can be cut spells the tokens that were found. -/
theorem spells_of_lexemesFrom {all : List Lexeme}
    (h : lexemesFrom position read cs = .ok all) :
    ∃ ls, all = read.reverse ++ ls ∧ Spells cs (ls.map Lexeme.token) := by
  fun_induction lexemesFrom position read cs with
  | case1 position read =>
    cases h
    exact ⟨[], by simp, .nil⟩
  | case2 position read c rest hb ih =>
    obtain ⟨ls, hall, hls⟩ := ih h
    exact ⟨ls, hall, .blank hb hls⟩
  | case3 position read c rest hb token hs ih =>
    obtain ⟨ls, hall, hls⟩ := ih h
    exact ⟨⟨position, token⟩ :: ls, by simpa using hall, .sign hs hls⟩
  | case4 => cases h
  | case5 position read token c rest hb hd hs ih =>
    obtain ⟨ls, hall, hls⟩ := ih h
    exact ⟨⟨position, token⟩ :: ls, by simpa using hall, .doubleSign hd hls⟩
  | case6 => cases h
  | case7 position read c rest hb hc word hs hd ih =>
    obtain ⟨ls, hall, hls⟩ := ih h
    refine ⟨⟨position, .word (String.ofList word)⟩ :: ls, by simpa using hall, ?_⟩
    have hw : ∀ d ∈ word, isWordChar d = true := by
      intro d hd
      rcases List.mem_cons.mp hd with rfl | hd
      · exact hc
      · exact List.all_eq_true.mp List.all_takeWhile d hd
    have hspells := Spells.word hw (head?_dropWhile_isWordChar rest) hls
    simpa [word] using hspells
  | case8 => cases h

end Cutting

/-- Cutting finds lexemes exactly for the texts that spell tokens, and then those tokens. -/
theorem exists_lexemes_iff (text : String) (ts : List Token) :
    (∃ ls, lexemes text = .ok ls ∧ ls.map Lexeme.token = ts) ↔ Spells text.toList ts := by
  constructor
  · rintro ⟨ls, hls, rfl⟩
    obtain ⟨ls', rfl, h⟩ := spells_of_lexemesFrom hls
    exact h
  · intro h
    exact lexemesFrom_of_spells h 0 []

/-- A text spells at most one list of tokens. -/
theorem Spells.unique {cs : List Char} {ts us : List Token} (ht : Spells cs ts)
    (hu : Spells cs us) : ts = us := by
  obtain ⟨ls, hls, rfl⟩ := lexemesFrom_of_spells ht 0 []
  obtain ⟨ms, hms, rfl⟩ := lexemesFrom_of_spells hu 0 []
  rw [hls] at hms
  cases hms
  rfl

end Conformance.Label
