import Mathlib.Data.List.Basic

/-!
Texts without their colours. A colour is switched by a sequence of the escape character, a bracket,
digits and an `m`. Such sequences are removed from left to right, and what a removal brings together
is not looked at again. A character that belongs to no sequence parts a text in two, from which the
sequences can be removed one by one.
-/
namespace Conformance.Text

section Codes

/-- The length of the sequence with which a text begins, if it begins with one. -/
def codeLength? : List Char → Option Nat
  | '\x1b' :: '[' :: rest =>
    let digits := rest.takeWhile Char.isDigit
    if digits ≠ [] ∧ (rest.dropWhile Char.isDigit).head? = some 'm' then some (digits.length + 3)
    else none
  | _ => none

/-- The text from the `n`-th character on, without the sequences in it. -/
def removeCodesFrom : Nat → List Char → List Char
  | _, [] => []
  | n + 1, _ :: rest => removeCodesFrom n rest
  | 0, c :: rest =>
    match codeLength? (c :: rest) with
    | some n => removeCodesFrom (n - 1) rest
    | none => c :: removeCodesFrom 0 rest

def removeCodes (s : String) : String := String.ofList (removeCodesFrom 0 s.toList)

/-- The character belongs to no sequence. -/
def IsApart (c : Char) : Prop := c ≠ '\x1b' ∧ c ≠ '[' ∧ c ≠ 'm' ∧ c.isDigit = false

instance (c : Char) : Decidable (IsApart c) := inferInstanceAs (Decidable (_ ∧ _))

variable {c : Char} {cs ds : List Char} {n : Nat}

theorem codeLength?_of_ne (h : c ≠ '\x1b') (cs : List Char) : codeLength? (c :: cs) = none := by
  unfold codeLength?
  split
  · rename_i heq
    exact absurd (List.cons.inj heq).1 h
  · rfl

theorem codeLength?_of_ne_bracket (h : c ≠ '[') (b : Char) (cs : List Char) :
    codeLength? (b :: c :: cs) = none := by
  unfold codeLength?
  split
  · rename_i heq
    exact absurd (List.cons.inj (List.cons.inj heq).2).1 h
  · rfl

theorem takeWhile_append_apart (hc : IsApart c) (cs ds : List Char) :
    (cs ++ c :: ds).takeWhile Char.isDigit = cs.takeWhile Char.isDigit := by
  rw [List.takeWhile_append]
  split
  · rename_i hall
    rw [List.takeWhile_cons_of_neg (by simp [hc.2.2.2]), List.append_nil,
      ((List.takeWhile_prefix _).eq_of_length hall)]
  · rfl

theorem head?_dropWhile_append_apart (hc : IsApart c) (cs ds : List Char) :
    ((cs ++ c :: ds).dropWhile Char.isDigit).head? = some 'm' ↔
      (cs.dropWhile Char.isDigit).head? = some 'm' := by
  induction cs with
  | nil => simp [hc.2.2.1, hc.2.2.2]
  | cons d cs ih => by_cases hd : d.isDigit = true <;> simp [hd, ih]

/-- No sequence reaches over a character that belongs to none. -/
theorem codeLength?_append (hc : IsApart c) (hcs : cs ≠ []) (ds : List Char) :
    codeLength? (cs ++ c :: ds) = codeLength? cs := by
  match cs, hcs with
  | [b], _ =>
    rw [List.singleton_append, codeLength?_of_ne_bracket hc.2.1]
    unfold codeLength?
    split
    · rename_i heq
      cases heq
    · rfl
  | b :: d :: cs, _ =>
    by_cases hb : b = '\x1b'
    · by_cases hd : d = '['
      · subst hb hd
        simp only [List.cons_append, codeLength?, takeWhile_append_apart hc,
          head?_dropWhile_append_apart hc]
      · rw [List.cons_append, List.cons_append, codeLength?_of_ne_bracket hd,
          codeLength?_of_ne_bracket hd]
    · rw [List.cons_append, codeLength?_of_ne hb, codeLength?_of_ne hb]

theorem le_length_of_codeLength? (h : codeLength? cs = some n) : n ≤ cs.length := by
  unfold codeLength? at h
  split at h
  · rename_i rest
    obtain ⟨⟨-, hlast⟩, hn⟩ := Option.ite_none_right_eq_some.mp h
    have hparts : rest.length = (rest.takeWhile Char.isDigit).length +
        (rest.dropWhile Char.isDigit).length := by
      rw [← List.length_append, List.takeWhile_append_dropWhile]
    have hlonger := List.length_pos_of_mem (List.mem_of_head? hlast)
    have hlength := Option.some.inj hn
    simp only [List.length_cons]
    omega
  · cases h

theorem removeCodesFrom_of_none (h : codeLength? (c :: cs) = none) :
    removeCodesFrom 0 (c :: cs) = c :: removeCodesFrom 0 cs := by
  simp only [removeCodesFrom, h]

theorem removeCodesFrom_of_some (h : codeLength? (c :: cs) = some n) :
    removeCodesFrom 0 (c :: cs) = removeCodesFrom (n - 1) cs := by
  simp only [removeCodesFrom, h]

theorem removeCodesFrom_eq_drop (n : Nat) (cs : List Char) :
    removeCodesFrom n cs = removeCodesFrom 0 (cs.drop n) := by
  induction cs generalizing n with
  | nil => rw [List.drop_nil, removeCodesFrom, removeCodesFrom]
  | cons c cs ih =>
    cases n with
    | zero => rfl
    | succ n => exact ih n

/-- A character that belongs to no sequence stays, and parts the text. -/
theorem removeCodesFrom_append (hc : IsApart c) (hn : n ≤ cs.length) (ds : List Char) :
    removeCodesFrom n (cs ++ c :: ds) = removeCodesFrom n cs ++ c :: removeCodesFrom 0 ds := by
  induction cs generalizing n with
  | nil =>
    obtain rfl : n = 0 := Nat.le_zero.mp hn
    exact removeCodesFrom_of_none (codeLength?_of_ne hc.1 ds)
  | cons b cs ih =>
    cases n with
    | succ n => exact ih (Nat.le_of_succ_le_succ hn)
    | zero =>
      have hlength := codeLength?_append hc (List.cons_ne_nil b cs) ds
      rw [List.cons_append] at hlength
      cases h : codeLength? (b :: cs) with
      | none =>
        rw [removeCodesFrom_of_none h, List.cons_append,
          removeCodesFrom_of_none (hlength.trans h), ih (Nat.zero_le _), List.cons_append]
      | some n =>
        have hle := le_length_of_codeLength? h
        rw [List.length_cons] at hle
        rw [removeCodesFrom_of_some h, List.cons_append,
          removeCodesFrom_of_some (hlength.trans h), ih (by omega)]

/-- The sequence with the given digits. -/
def colorCode (digits : List Char) : List Char := '\x1b' :: '[' :: (digits ++ ['m'])

theorem removeCodesFrom_colorCode {digits : List Char} (hne : digits ≠ [])
    (hdigits : digits.all Char.isDigit = true) (ds : List Char) :
    removeCodesFrom 0 (colorCode digits ++ ds) = removeCodesFrom 0 ds := by
  have hrun := List.all_eq_true.mp hdigits
  have hcode : colorCode digits ++ ds = '\x1b' :: '[' :: (digits ++ 'm' :: ds) := by
    simp [colorCode]
  have hlength : codeLength? ('\x1b' :: '[' :: (digits ++ 'm' :: ds)) =
      some (digits.length + 3) := by
    simp [codeLength?, List.takeWhile_append_of_pos hrun, List.dropWhile_append_of_pos hrun,
      hne]
  rw [hcode, removeCodesFrom_of_some hlength, removeCodesFrom_eq_drop]
  simp

example : removeCodes "\x1b[31mred\x1b[0m, \x1b[m, \x1b\x1b[7m[7m" = "red, \x1b[m, \x1b[7m" := by
  decide

end Codes

section Likeness

/-- The texts are the same but for colours, whatever stands before and behind them. -/
def LikeColored (s t : String) : Prop :=
  ∀ before after : List Char, removeCodesFrom 0 (before ++ s.toList ++ after) =
    removeCodesFrom 0 (before ++ t.toList ++ after)

/-- The text ends with a character that belongs to no sequence. -/
def EndsApart (s : String) : Prop := ∃ earlier c, s.toList = earlier ++ [c] ∧ IsApart c

variable {s s' t t' : String}

theorem LikeColored.refl (s : String) : LikeColored s s := fun _ _ => rfl

theorem LikeColored.append (h : LikeColored s s') (h' : LikeColored t t') :
    LikeColored (s ++ t) (s' ++ t') := by
  intro before after
  have hfirst := h before (t.toList ++ after)
  have hsecond := h' (before ++ s'.toList) after
  simp only [String.toList_append, List.append_assoc] at hfirst hsecond ⊢
  rw [hfirst, hsecond]

theorem LikeColored.join {α : Type} {f g : α → String} (h : ∀ a, LikeColored (f a) (g a))
    (as : List α) : LikeColored (String.join (as.map f)) (String.join (as.map g)) := by
  induction as with
  | nil => exact .refl _
  | cons a as ih =>
    rw [List.map_cons, List.map_cons, String.join_cons, String.join_cons]
    exact (h a).append ih

theorem LikeColored.removeCodes_eq (h : LikeColored s t) : removeCodes s = removeCodes t := by
  have hwhole := h [] []
  simp only [List.nil_append, List.append_nil] at hwhole
  rw [removeCodes, hwhole, removeCodes]

/-- A colour may be switched on and off again between characters that belong to no sequence. -/
theorem likeColored_between (hs : EndsApart s) (ht : EndsApart t) {on off : String}
    (hon : ∀ ds, removeCodesFrom 0 (on.toList ++ ds) = removeCodesFrom 0 ds)
    (hoff : ∀ ds, removeCodesFrom 0 (off.toList ++ ds) = removeCodesFrom 0 ds) :
    LikeColored (s ++ (on ++ t ++ off)) (s ++ t) := by
  obtain ⟨earlier, c, hearlier, hc⟩ := hs
  obtain ⟨text, d, htext, hd⟩ := ht
  intro before after
  have hparts (ds : List Char) : removeCodesFrom 0 (before ++ earlier ++ c :: ds) =
      removeCodesFrom 0 (before ++ earlier) ++ c :: removeCodesFrom 0 ds :=
    removeCodesFrom_append hc (Nat.zero_le _) ds
  have hinner (ds : List Char) : removeCodesFrom 0 (text ++ d :: ds) =
      removeCodesFrom 0 text ++ d :: removeCodesFrom 0 ds :=
    removeCodesFrom_append hd (Nat.zero_le _) ds
  simp only [String.toList_append, hearlier, htext, List.append_assoc, List.cons_append,
    List.nil_append] at hparts ⊢
  rw [hparts, hparts, hon, hinner, hinner, hoff]

end Likeness

section Frames

/-- The text has no escape character. -/
def Plain (s : String) : Prop := '\x1b' ∉ s.toList

instance (s : String) : Decidable (Plain s) := inferInstanceAs (Decidable (¬_))

variable {s t : String} {ss ts : List String}

theorem plain_empty : Plain "" := by decide

theorem plain_append : Plain (s ++ t) ↔ Plain s ∧ Plain t := by
  rw [Plain, String.toList_append, List.mem_append, not_or, Plain, Plain]

theorem Plain.removeCodes_eq (h : Plain s) : removeCodes s = s := by
  have hstays {cs : List Char} (hcs : '\x1b' ∉ cs) : removeCodesFrom 0 cs = cs := by
    induction cs with
    | nil => rfl
    | cons c cs ih =>
      obtain ⟨hc, hrest⟩ := not_or.mp (List.mem_cons.not.mp hcs)
      rw [removeCodesFrom_of_none (codeLength?_of_ne (Ne.symm hc) cs), ih hrest]
  rw [removeCodes, hstays h, String.ofList_toList]

/-- The text is made of the given ones in their order, and of text without escape characters around
them. -/
inductive Framed : List String → String → Prop
  | plain {s : String} (h : Plain s) : Framed [] s
  | cons {frame s : String} {ts : List String} (h : Plain frame) (t : String)
      (hrest : Framed ts s) : Framed (t :: ts) (frame ++ t ++ s)

namespace Framed

theorem self (s : String) : Framed [s] s := by
  simpa using cons plain_empty s (plain plain_empty)

theorem append (h : Framed ss s) (h' : Framed ts t) : Framed (ss ++ ts) (s ++ t) := by
  induction h with
  | plain hs =>
    cases h' with
    | plain ht => exact plain (plain_append.mpr ⟨hs, ht⟩)
    | cons hframe u hrest =>
      rw [← String.append_assoc, ← String.append_assoc]
      exact cons (plain_append.mpr ⟨hs, hframe⟩) u hrest
  | cons hframe u hrest ih =>
    rw [String.append_assoc]
    exact cons hframe u ih

theorem join {α : Type} {f : α → List String} {g : α → String} (h : ∀ a, Framed (f a) (g a))
    (as : List α) : Framed (as.flatMap f) (String.join (as.map g)) := by
  induction as with
  | nil => exact plain plain_empty
  | cons a as ih =>
    rw [List.flatMap_cons, List.map_cons, String.join_cons]
    exact (h a).append ih

theorem plain_iff (h : Framed ts s) : Plain s ↔ ∀ t ∈ ts, Plain t := by
  induction h with
  | plain hs => exact iff_of_true hs nofun
  | cons hframe t _ ih =>
    rw [plain_append, plain_append, ih, List.forall_mem_cons]
    exact and_congr_left fun _ => and_iff_right hframe

end Framed

end Frames

end Conformance.Text
