import Conformance.Proofs.Label.Spelling
import Mathlib.Data.List.Basic

/-!
Texts put together from two. Where no word goes on over the seam, the tokens of the whole are those
of its parts, and the second part is cut as it would be by itself, its bytes counted from the end of
the first. A text that spells tokens can be cut in two before any of them.
-/
namespace Conformance.Label

/-- No word goes on from the one text into the other. -/
def Seam (cs ds : List Char) : Prop :=
  ∀ c ∈ cs.getLast?, isWordChar c = true → ∀ d ∈ ds.head?, isWordChar d = false

section Seam

variable {cs cs' ds : List Char} {ts us : List Token}

theorem seam_nil (ds : List Char) : Seam [] ds := nofun

theorem Seam.of_append (h : Seam (cs ++ cs') ds) : Seam cs' ds := by
  intro c hc
  exact h c (List.mem_getLast?_append_of_mem_getLast? hc)

theorem Seam.tail {c : Char} (h : Seam (c :: cs) ds) : Seam cs ds := by
  rw [← List.singleton_append] at h
  exact h.of_append

theorem seam_of_head (h : ∀ d ∈ ds.head?, isWordChar d = false) : Seam cs ds := fun _ _ _ => h

/-- No word goes on into a sign. -/
theorem seam_of_sign {d : Char} (h : isWordChar d = false) : Seam cs (d :: ds) := by
  refine seam_of_head fun c hc => ?_
  cases hc
  exact h

theorem seam_of_not_word (h : ∀ c ∈ cs, isWordChar c = false) : Seam cs ds := by
  intro c hc hword
  rw [h c (List.mem_of_getLast? hc)] at hword
  cases hword

theorem Seam.append (h : Seam cs' ds) (hempty : cs' = [] → Seam cs ds) : Seam (cs ++ cs') ds := by
  cases cs' with
  | nil =>
    rw [List.append_nil]
    exact hempty rfl
  | cons c cs' =>
    intro d hd
    rw [List.getLast?_append, List.getLast?_cons, Option.some_or] at hd
    exact h d (by rwa [List.getLast?_cons])

/-- A word that stands before a seam ends there or before it. -/
theorem Seam.head {w : List Char} {c : Char} (hw : ∀ d ∈ c :: w, isWordChar d = true)
    (hend : ∀ d ∈ cs.head?, isWordChar d = false) (h : Seam (c :: w ++ cs) ds) :
    ∀ d ∈ (cs ++ ds).head?, isWordChar d = false := by
  cases cs with
  | nil =>
    rw [List.append_nil] at h
    have hlast := List.getLast?_eq_some_getLast (List.cons_ne_nil c w)
    exact h _ hlast (hw _ (List.getLast_mem _))
  | cons d cs => exact hend

/-- Texts without a word over their seam spell what their parts spell. -/
theorem Spells.append (h : Spells cs ts) (h' : Spells ds us) (hseam : Seam cs ds) :
    Spells (cs ++ ds) (ts ++ us) := by
  induction h with
  | nil => exact h'
  | blank hc _ ih => exact .blank hc (ih hseam.tail)
  | opening _ ih => exact .opening (ih hseam.tail)
  | closing _ ih => exact .closing (ih hseam.tail)
  | not _ ih => exact .not (ih hseam.tail)
  | comma _ ih => exact .comma (ih hseam.tail)
  | bars _ ih => exact .bars (ih hseam.tail.tail)
  | ampersands _ ih => exact .ampersands (ih hseam.tail.tail)
  | word hw hend _ ih =>
    rw [List.append_assoc]
    exact .word hw (hseam.head hw hend) (ih hseam.of_append)

/-- A word is spelled by its characters. -/
theorem spells_word {w : List Char} {c : Char} (hw : ∀ d ∈ c :: w, isWordChar d = true) :
    Spells (c :: w) [.word (String.ofList (c :: w))] := by
  have h : Spells (c :: w ++ []) [.word (String.ofList (c :: w))] := .word hw nofun .nil
  rwa [List.append_nil] at h

end Seam

section Places

variable {cs ds : List Char} {ts us : List Token} {t : Token}

theorem byteLength_append (cs ds : List Char) :
    byteLength (cs ++ ds) = byteLength cs + byteLength ds := by
  induction cs with
  | nil => exact (Nat.zero_add _).symm
  | cons c cs ih => rw [List.cons_append, byteLength, ih, byteLength, Nat.add_assoc]

/-- The bytes before a place are those of the text up to there. -/
theorem byteLength_eq (cs : List Char) : byteLength cs = (String.ofList cs).utf8ByteSize := by
  induction cs with
  | nil => rfl
  | cons c cs ih =>
    rw [byteLength, ih, ← List.singleton_append, String.ofList_append]
    simp

private theorem cut_first {text rest : List Char} {token : Token} {length : Nat}
    (hstep : ∀ position read, lexemesFrom position read text =
      lexemesFrom (position + length) (⟨position, token⟩ :: read) (cs ++ ds))
    (ih : ∀ position (read : List Lexeme), ∃ ls : List Lexeme, ls.map Lexeme.token = ts ∧
      lexemesFrom position read (cs ++ ds) =
        lexemesFrom (position + byteLength cs) (ls.reverse ++ read) ds)
    (hlength : byteLength rest = length + byteLength cs) (position : Nat) (read : List Lexeme) :
    ∃ ls : List Lexeme, ls.map Lexeme.token = token :: ts ∧ lexemesFrom position read text =
      lexemesFrom (position + byteLength rest) (ls.reverse ++ read) ds := by
  obtain ⟨ls, rfl, hls⟩ := ih (position + length) (⟨position, token⟩ :: read)
  refine ⟨⟨position, token⟩ :: ls, rfl, ?_⟩
  rw [hstep, hls, hlength, Nat.add_assoc, List.reverse_cons, List.append_assoc,
    List.singleton_append]

/-- The first part of a text is cut into its tokens, and the cutting goes on behind it. -/
theorem lexemesFrom_append (h : Spells cs ts) (hseam : Seam cs ds) (position : Nat)
    (read : List Lexeme) : ∃ ls : List Lexeme, ls.map Lexeme.token = ts ∧
      lexemesFrom position read (cs ++ ds) =
        lexemesFrom (position + byteLength cs) (ls.reverse ++ read) ds := by
  induction h generalizing position read with
  | nil => exact ⟨[], rfl, rfl⟩
  | @blank c cs ts hc _ ih =>
    obtain ⟨ls, hts, hls⟩ := ih hseam.tail (position + c.utf8Size) read
    refine ⟨ls, hts, ?_⟩
    rw [List.cons_append, lexemesFrom_blank hc, hls, byteLength, Nat.add_assoc]
  | opening _ ih =>
    exact cut_first (fun _ _ => lexemesFrom_sign (by decide) rfl) (ih hseam.tail) rfl ..
  | closing _ ih =>
    exact cut_first (fun _ _ => lexemesFrom_sign (by decide) rfl) (ih hseam.tail) rfl ..
  | not _ ih =>
    exact cut_first (fun _ _ => lexemesFrom_sign (by decide) rfl) (ih hseam.tail) rfl ..
  | comma _ ih =>
    exact cut_first (fun _ _ => lexemesFrom_sign (by decide) rfl) (ih hseam.tail) rfl ..
  | bars _ ih =>
    refine cut_first (fun _ _ => lexemesFrom_doubleSign (by decide) rfl rfl)
      (ih hseam.tail.tail) ?_ ..
    simp only [byteLength]
    omega
  | ampersands _ ih =>
    refine cut_first (fun _ _ => lexemesFrom_doubleSign (by decide) rfl rfl)
      (ih hseam.tail.tail) ?_ ..
    simp only [byteLength]
    omega
  | word hw hend _ ih =>
    rw [List.append_assoc]
    exact cut_first (fun _ _ => lexemesFrom_word hw (hseam.head hw hend)) (ih hseam.of_append)
      (byteLength_append ..) ..

/-- A text divided before a token, with the tokens of both parts. -/
structure Division (text before rest : List Char) (ts us : List Token) : Prop where
  text_eq : text = before ++ rest
  spells_before : Spells before ts
  spells_rest : Spells rest us
  seam : Seam before rest
  start : ∀ c ∈ rest.head?, Text.isBlank c = false

theorem Division.spells {before rest : List Char} (h : Division cs before rest ts us) :
    Spells cs (ts ++ us) := by
  rw [h.text_eq]
  exact h.spells_before.append h.spells_rest h.seam

/-- A text that begins with a sign can be divided before it or as the text after it. -/
private theorem exists_division_sign {c : Char} (front : List Char) {token : Token}
    {later : List Token} (hsign : ∀ {cs ts}, Spells cs ts → Spells (c :: front ++ cs) (token :: ts))
    (hword : (c :: front).any isWordChar = false) (hblank : Text.isBlank c = false)
    (h : Spells cs later)
    (ih : ∀ ts, ts ++ t :: us = later → ∃ before rest, Division cs before rest ts (t :: us))
    (hall : ts ++ t :: us = token :: later) :
    ∃ before rest, Division (c :: front ++ cs) before rest ts (t :: us) := by
  cases ts with
  | nil =>
    obtain ⟨rfl, rfl⟩ := List.cons.inj hall
    refine ⟨[], _, rfl, .nil, hsign h, seam_nil _, ?_⟩
    simpa using hblank
  | cons first ts =>
    obtain ⟨rfl, hrest⟩ := List.cons.inj hall
    obtain ⟨before, rest, d⟩ := ih ts hrest
    refine ⟨c :: front ++ before, rest, ?_, hsign d.spells_before, d.spells_rest, ?_, d.start⟩
    · rw [d.text_eq, List.append_assoc]
    · refine d.seam.append fun _ => seam_of_not_word fun d hd => ?_
      exact Bool.eq_false_iff.mpr (List.any_eq_false.mp hword d hd)

/-- A text that spells tokens can be divided before each of them. -/
theorem Spells.exists_division (h : Spells cs (ts ++ t :: us)) :
    ∃ before rest, Division cs before rest ts (t :: us) := by
  generalize hall : ts ++ t :: us = all at h
  induction h generalizing ts with
  | nil => exact absurd hall (by simp)
  | @blank c cs all hc _ ih =>
    obtain ⟨before, rest, d⟩ := ih hall
    refine ⟨c :: before, rest, ?_, .blank hc d.spells_before, d.spells_rest, ?_, d.start⟩
    · rw [d.text_eq, List.cons_append]
    · rw [← List.singleton_append]
      refine d.seam.append fun _ => seam_of_not_word ?_
      exact List.forall_mem_singleton.mpr (isWordChar_of_isBlank hc)
  | opening h ih =>
    exact exists_division_sign [] .opening (by decide) (by decide) h (fun _ => ih) hall
  | closing h ih =>
    exact exists_division_sign [] .closing (by decide) (by decide) h (fun _ => ih) hall
  | not h ih =>
    exact exists_division_sign [] .not (by decide) (by decide) h (fun _ => ih) hall
  | comma h ih =>
    exact exists_division_sign [] .comma (by decide) (by decide) h (fun _ => ih) hall
  | bars h ih =>
    exact exists_division_sign ['|'] .bars (by decide) (by decide) h (fun _ => ih) hall
  | ampersands h ih =>
    exact exists_division_sign ['&'] .ampersands (by decide) (by decide) h
      (fun _ => ih) hall
  | @word c w cs all hw hend h ih =>
    cases ts with
    | nil =>
      obtain ⟨rfl, rfl⟩ := List.cons.inj hall
      refine ⟨[], _, rfl, .nil, .word hw hend h, seam_nil _, ?_⟩
      simpa using isBlank_of_isWordChar (hw c List.mem_cons_self)
    | cons first ts =>
      obtain ⟨rfl, hrest⟩ := List.cons.inj hall
      obtain ⟨before, rest, d⟩ := ih hrest
      have hend' : ∀ d ∈ before.head?, isWordChar d = false := by
        intro d' hd'
        refine hend d' ?_
        rw [d.text_eq]
        exact List.mem_head?_append_of_mem_head? hd'
      refine ⟨c :: w ++ before, rest, ?_, .word hw hend' d.spells_before, d.spells_rest, ?_,
        d.start⟩
      · rw [d.text_eq, List.append_assoc]
      · refine d.seam.append fun hnil => seam_of_head ?_
        rwa [d.text_eq, hnil, List.nil_append] at hend

/-- The first token of a text that does not begin with white space has the place where the text
begins. -/
theorem Spells.lexemesFrom_cons {rest : List Char} (h : Spells rest (t :: us))
    (hstart : ∀ c ∈ rest.head?, Text.isBlank c = false) (position : Nat) (read : List Lexeme) :
    ∃ ms : List Lexeme, ms.map Lexeme.token = us ∧
      lexemesFrom position read rest = .ok (read.reverse ++ ⟨position, t⟩ :: ms) := by
  have hnext {cs : List Char} {position' : Nat} (hcs : Spells cs us)
      (hstep : lexemesFrom position read rest =
        lexemesFrom position' (⟨position, t⟩ :: read) cs) :
      ∃ ms : List Lexeme, ms.map Lexeme.token = us ∧
        lexemesFrom position read rest = .ok (read.reverse ++ ⟨position, t⟩ :: ms) := by
    obtain ⟨ms, hms, hus⟩ := lexemesFrom_of_spells hcs position' (⟨position, t⟩ :: read)
    refine ⟨ms, hus, ?_⟩
    rw [hstep, hms, List.reverse_cons, List.append_assoc, List.singleton_append]
  cases h with
  | blank hc h =>
    rw [hstart _ rfl] at hc
    cases hc
  | opening h => exact hnext h (lexemesFrom_sign (by decide) rfl)
  | closing h => exact hnext h (lexemesFrom_sign (by decide) rfl)
  | not h => exact hnext h (lexemesFrom_sign (by decide) rfl)
  | comma h => exact hnext h (lexemesFrom_sign (by decide) rfl)
  | bars h => exact hnext h (lexemesFrom_doubleSign (by decide) rfl rfl)
  | ampersands h => exact hnext h (lexemesFrom_doubleSign (by decide) rfl rfl)
  | word hw hend h => exact hnext h (lexemesFrom_word hw hend)

/-- The token before which a text is divided has the place of the division. -/
theorem Division.lexemes {text : String} {before rest : List Char}
    (h : Division text.toList before rest ts (t :: us)) :
    ∃ ls ms : List Lexeme, lexemes text = .ok (ls ++ ⟨byteLength before, t⟩ :: ms) ∧
      ls.map Lexeme.token = ts ∧ ms.map Lexeme.token = us := by
  obtain ⟨ls, hts, hbefore⟩ := lexemesFrom_append h.spells_before h.seam 0 []
  obtain ⟨ms, hus, hrest⟩ :=
    h.spells_rest.lexemesFrom_cons h.start (0 + byteLength before) (ls.reverse ++ [])
  refine ⟨ls, ms, ?_, hts, hus⟩
  rw [Label.lexemes, h.text_eq, hbefore, hrest, List.append_nil, List.reverse_reverse, Nat.zero_add]

/-- Every lexeme of a text stands where the text can be divided before its token. -/
theorem exists_division_of_lexemes {text : String} {ls ms : List Lexeme} {l : Lexeme}
    (h : lexemes text = .ok (ls ++ l :: ms)) :
    ∃ before rest, Division text.toList before rest (ls.map Lexeme.token)
      (l.token :: ms.map Lexeme.token) ∧ l.position = byteLength before := by
  have hspells := (exists_lexemes_iff text _).mp ⟨_, h, rfl⟩
  rw [List.map_append, List.map_cons] at hspells
  obtain ⟨before, rest, d⟩ := hspells.exists_division
  obtain ⟨ls', ms', hsame, hts, -⟩ := d.lexemes
  rw [h, Except.ok.injEq] at hsame
  have hlength : ls.length = ls'.length := by
    rw [← List.length_map Lexeme.token, ← hts, List.length_map]
  obtain ⟨-, hlast⟩ := List.append_inj hsame hlength
  exact ⟨before, rest, d, congrArg Lexeme.position (List.cons.inj hlast).1⟩

end Places

end Conformance.Label
