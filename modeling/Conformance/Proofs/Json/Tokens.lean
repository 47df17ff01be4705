import Conformance.Json.Printer
import Conformance.Proofs.Json.Literals
import Conformance.Proofs.Text.Runs

/-!
The tokens of a printed value. A layout is white space around the tokens of a value; the two in use
are the compact and the indented one. Scanning the text of a value gives its tokens, whatever the
layout.
-/
namespace Conformance.Json

/-! Layouts -/

/-- White space to print with. -/
structure Layout where
  /-- Before an item or member of this level, and before the sign that closes it a level below. -/
  line : Nat → String
  /-- After the colon of a member. -/
  gap : String
  all_line : ∀ level, (line level).toList.all isSpace
  all_gap : gap.toList.all isSpace

namespace Layout

mutual
def print (l : Layout) (level : Nat) : Json → String
  | null => "null"
  | bool true => "true"
  | bool false => "false"
  | int n => toString n
  | decimal s => s
  | str s => literal s
  | unpaired => "\"\\ud800\""
  | arr [] => "[]"
  | arr (v :: rest) =>
    "[" ++ l.line (level + 1) ++ l.print (level + 1) v ++ l.printItems (level + 1) rest
      ++ l.line level ++ "]"
  | obj [] => "\x7b\x7d"
  | obj ((k, v) :: rest) =>
    "\x7b" ++ l.line (level + 1) ++ literal k ++ ":" ++ l.gap ++ l.print (level + 1) v
      ++ l.printMembers (level + 1) rest ++ l.line level ++ "\x7d"

def printItems (l : Layout) (level : Nat) : List Json → String
  | [] => ""
  | v :: rest => "," ++ l.line level ++ l.print level v ++ l.printItems level rest

def printMembers (l : Layout) (level : Nat) : List (String × Json) → String
  | [] => ""
  | (k, v) :: rest =>
    "," ++ l.line level ++ literal k ++ ":" ++ l.gap ++ l.print level v
      ++ l.printMembers level rest
end

def compact : Layout where
  line _ := ""
  gap := ""
  all_line _ := rfl
  all_gap := rfl

def indented : Layout where
  line := newline
  gap := " "
  all_line level := by simp [newline, isSpace]
  all_gap := rfl

@[simp] theorem line_compact (level : Nat) : compact.line level = "" := rfl

@[simp] theorem gap_compact : compact.gap = "" := rfl

@[simp] theorem line_indented (level : Nat) : indented.line level = newline level := rfl

@[simp] theorem gap_indented : indented.gap = " " := rfl

mutual
theorem print_compact (level : Nat) (v : Json) : compact.print level v = v.compact := by
  match v with
  | null | bool true | bool false | int _ | decimal _ | str _ | unpaired | arr [] | obj [] =>
    simp [print, Json.compact]
  | arr (v :: rest) => simp [print, Json.compact, print_compact _ v, printItems_compact _ rest]
  | obj ((k, v) :: rest) =>
    simp [print, Json.compact, print_compact _ v, printMembers_compact _ rest]

theorem printItems_compact (level : Nat) (vs : List Json) :
    compact.printItems level vs = compactItems vs := by
  match vs with
  | [] => rfl
  | v :: rest => simp [printItems, compactItems, print_compact _ v, printItems_compact _ rest]

theorem printMembers_compact (level : Nat) (ms : List (String × Json)) :
    compact.printMembers level ms = compactMembers ms := by
  match ms with
  | [] => rfl
  | (k, v) :: rest =>
    simp [printMembers, compactMembers, print_compact _ v, printMembers_compact _ rest]
end

mutual
theorem print_indented (level : Nat) (v : Json) : indented.print level v = v.indentedAt level := by
  match v with
  | null | bool true | bool false | int _ | decimal _ | str _ | unpaired | arr [] | obj [] =>
    simp [print, indentedAt]
  | arr (v :: rest) => simp [print, indentedAt, print_indented _ v, printItems_indented _ rest]
  | obj ((k, v) :: rest) =>
    simp [print, indentedAt, print_indented _ v, printMembers_indented _ rest, String.append_assoc]

theorem printItems_indented (level : Nat) (vs : List Json) :
    indented.printItems level vs = indentedItems level vs := by
  match vs with
  | [] => rfl
  | v :: rest => simp [printItems, indentedItems, print_indented _ v, printItems_indented _ rest]

theorem printMembers_indented (level : Nat) (ms : List (String × Json)) :
    indented.printMembers level ms = indentedMembers level ms := by
  match ms with
  | [] => rfl
  | (k, v) :: rest =>
    simp [printMembers, indentedMembers, print_indented _ v, printMembers_indented _ rest,
      String.append_assoc]
end

end Layout

/-! The tokens of a value -/

mutual
def tokenList : Json → List Token
  | null => [.null]
  | bool b => [.bool b]
  | int n => [.int n]
  | decimal s => [.decimal s]
  | str s => [.str s]
  | unpaired => [.unpaired]
  | arr [] => [.openArray, .closeArray]
  | arr (v :: rest) => .openArray :: v.tokenList ++ itemTokens rest ++ [.closeArray]
  | obj [] => [.openObject, .closeObject]
  | obj ((k, v) :: rest) =>
    .openObject :: .str k :: .colon :: v.tokenList ++ memberTokens rest ++ [.closeObject]

def itemTokens : List Json → List Token
  | [] => []
  | v :: rest => .comma :: v.tokenList ++ itemTokens rest

def memberTokens : List (String × Json) → List Token
  | [] => []
  | (k, v) :: rest => .comma :: .str k :: .colon :: v.tokenList ++ memberTokens rest
end

/-- The text of a number that is no integer. -/
def IsDecimal (s : String) : Prop :=
  s.toList.all isNumberChar ∧ number? s.toList = some (.decimal s)

mutual
/-- A value is sound when every decimal in it is the text of a number. -/
def Sound : Json → Prop
  | decimal s => IsDecimal s
  | arr items => SoundItems items
  | obj members => SoundMembers members
  | _ => True

def SoundItems : List Json → Prop
  | [] => True
  | v :: rest => v.Sound ∧ SoundItems rest

def SoundMembers : List (String × Json) → Prop
  | [] => True
  | (_, v) :: rest => v.Sound ∧ SoundMembers rest
end

/-! Scanning -/

/-- A text in front of which a word or a number ends. -/
def Parted : List Char → Prop
  | [] => True
  | c :: _ => isLetter c = false ∧ isNumberChar c = false

theorem parted_of_isSpace {c : Char} {cs : List Char} (h : isSpace c) : Parted (c :: cs) := by
  simp only [isSpace, Bool.or_eq_true, beq_iff_eq] at h
  obtain ((rfl | rfl) | rfl) | rfl := h <;> exact ⟨by decide, by decide⟩

theorem isSpace_of_sign? {c : Char} {t : Token} (h : sign? c = some t) : isSpace c = false := by
  unfold sign? at h
  split at h <;> first | decide | cases h

theorem parted_of_sign? {c : Char} {t : Token} {cs : List Char} (h : sign? c = some t) :
    Parted (c :: cs) := by
  unfold sign? at h
  split at h <;> first | exact ⟨by decide, by decide⟩ | cases h

theorem parted_append {cs rest : List Char} (h : cs.all isSpace) (hrest : Parted rest) :
    Parted (cs ++ rest) := by
  cases cs with
  | nil => exact hrest
  | cons c cs => exact parted_of_isSpace (List.all_eq_true.1 h c List.mem_cons_self)

variable (read : List Token)

theorem tokensFrom_spaces {cs : List Char} (h : cs.all isSpace) (rest : List Char) :
    tokensFrom read (cs ++ rest) = tokensFrom read rest := by
  induction cs with
  | nil => rfl
  | cons c cs ih =>
    obtain ⟨hc, hcs⟩ := Bool.and_eq_true_iff.1 (List.all_cons ▸ h)
    rw [List.cons_append, tokensFrom, if_pos hc, ih hcs]

theorem tokensFrom_sign {c : Char} {t : Token} (h : sign? c = some t) (rest : List Char) :
    tokensFrom read (c :: rest) = tokensFrom (t :: read) rest := by
  rw [tokensFrom, isSpace_of_sign? h, h]
  simp

/-- Every sign is a token of its own. -/
theorem tokensFrom_signs (rest : List Char) :
    tokensFrom read ('[' :: rest) = tokensFrom (.openArray :: read) rest ∧
      tokensFrom read (']' :: rest) = tokensFrom (.closeArray :: read) rest ∧
      tokensFrom read ('{' :: rest) = tokensFrom (.openObject :: read) rest ∧
      tokensFrom read ('}' :: rest) = tokensFrom (.closeObject :: read) rest ∧
      tokensFrom read (',' :: rest) = tokensFrom (.comma :: read) rest ∧
      tokensFrom read (':' :: rest) = tokensFrom (.colon :: read) rest := by
  refine ⟨?_, ?_, ?_, ?_, ?_, ?_⟩ <;> exact tokensFrom_sign read rfl rest

theorem tokensFrom_codes {cs after : List Char} (codes : List Nat)
    (h : codes? cs = some (codes, after)) :
    tokensFrom read ('"' :: cs) = tokensFrom (stringToken codes :: read) after := by
  have hsign : sign? '"' = none := rfl
  rw [tokensFrom, if_neg (by decide)]
  simp only [hsign, if_true]
  split
  · next hnone => rw [h] at hnone; cases hnone
  · next codes' after' hsome =>
    rw [h, Option.some.injEq, Prod.mk.injEq] at hsome
    rw [hsome.1, hsome.2]

theorem tokensFrom_literal (s : String) (rest : List Char) :
    tokensFrom read ((literal s).toList ++ rest) = tokensFrom (.str s :: read) rest := by
  have hcodes := codes?_encode s.toList rest
  rw [show (literal s).toList ++ rest = '"' :: (encode s.toList ++ '"' :: rest) by simp [literal],
    tokensFrom_codes read _ hcodes, stringToken_map_toNat]

theorem not_letter_of_parted {rest : List Char} (h : Parted rest) :
    ∀ c ∈ rest.head?, isLetter c = false := by
  cases rest with
  | nil => nofun
  | cons c rest => rintro _ ⟨⟩; exact h.1

theorem not_numberChar_of_parted {rest : List Char} (h : Parted rest) :
    ∀ c ∈ rest.head?, isNumberChar c = false := by
  cases rest with
  | nil => nofun
  | cons c rest => rintro _ ⟨⟩; exact h.2

theorem tokensFrom_keyword (word : List Char) {t : Token} (h : keyword? word = some t)
    {rest : List Char} (hrest : Parted rest) :
    tokensFrom read (word ++ rest) = tokensFrom (t :: read) rest := by
  obtain ⟨c, cs, rfl⟩ := List.exists_cons_of_ne_nil (l := word) (by rintro rfl; cases h)
  have hstart : isSpace c = false ∧ sign? c = none ∧ c ≠ '"' ∧ isLetter c ∧ cs.all isLetter := by
    unfold keyword? at h
    split at h <;> simp_all <;> decide
  obtain ⟨hspace, hsign, hquote, hletter, hall⟩ := hstart
  obtain ⟨htake, hdrop⟩ := Text.span_append (List.all_eq_true.1 hall) (not_letter_of_parted hrest)
  rw [List.cons_append, tokensFrom, htake, hdrop, h, hspace, hsign]
  simp [hquote, hletter]

theorem isDigit_or_eq_of_number? {c : Char} {cs : List Char} {t : Token}
    (h : number? (c :: cs) = some t) : isDigit c ∨ c = '-' := by
  by_contra hc
  obtain ⟨hdigit, hminus⟩ := not_or.1 hc
  have hzero : c ≠ '0' := by rintro rfl; exact hdigit (by decide)
  simp [number?, integerPart?, hminus, hzero, hdigit] at h

/-- The first character of a number begins no other token. -/
theorem number_start {c : Char} (h : isDigit c ∨ c = '-') :
    isSpace c = false ∧ sign? c = none ∧ c ≠ '"' ∧ isLetter c = false := by
  rcases h with h | rfl
  · refine ⟨?_, ?_, ?_, ?_⟩
    · by_contra hspace
      simp only [isSpace, Bool.not_eq_false, Bool.or_eq_true, beq_iff_eq] at hspace
      obtain ((rfl | rfl) | rfl) | rfl := hspace <;> exact absurd h (by decide)
    · unfold sign?
      split <;> first | rfl | exact absurd h (by decide)
    · rintro rfl
      exact absurd h (by decide)
    · by_contra hletter
      simp only [isLetter, isDigit, Bool.not_eq_false, Bool.and_eq_true, decide_eq_true_eq]
        at h hletter
      exact absurd (Char.le_trans hletter.1 h.2) (by decide)
  · exact ⟨by decide, by decide, by decide, by decide⟩

theorem tokensFrom_number {cs rest : List Char} {t : Token} (hcs : cs.all isNumberChar)
    (h : number? cs = some t) (hrest : Parted rest) :
    tokensFrom read (cs ++ rest) = tokensFrom (t :: read) rest := by
  obtain ⟨c, cs, rfl⟩ := List.exists_cons_of_ne_nil (l := cs) (by rintro rfl; cases h)
  obtain ⟨hspace, hsign, hquote, hletter⟩ := number_start (isDigit_or_eq_of_number? h)
  obtain ⟨hc, hall⟩ := Bool.and_eq_true_iff.1 (List.all_cons ▸ hcs)
  obtain ⟨htake, hdrop⟩ :=
    Text.span_append (List.all_eq_true.1 hall) (not_numberChar_of_parted hrest)
  rw [List.cons_append, tokensFrom, htake, hdrop, h, hspace, hsign]
  simp [hquote, hletter, hc]

/-! Scanning a printed value -/

theorem tokensFrom_int (n : Int) {rest : List Char} (hrest : Parted rest) :
    tokensFrom read ((toString n).toList ++ rest) = tokensFrom (.int n :: read) rest := by
  refine tokensFrom_number read ?_ (number?_toString n) hrest
  have hdigits : (Nat.toDigits 10 n.natAbs).all isNumberChar := List.all_eq_true.2 fun c hc =>
    isNumberChar_of_isDigit (isDigit_of_mem_toDigits hc)
  rw [toList_toString, List.all_append, hdigits]
  split <;> rfl

theorem tokensFrom_unpaired (rest : List Char) :
    tokensFrom read ("\"\\ud800\"".toList ++ rest) = tokensFrom (.unpaired :: read) rest :=
  tokensFrom_codes read [0xd800] rfl

theorem parted_printItems (l : Layout) (level : Nat) (vs : List Json) {rest : List Char}
    (h : Parted rest) : Parted ((l.printItems level vs).toList ++ rest) := by
  cases vs with
  | nil => simpa [Layout.printItems] using h
  | cons v vs => simpa [Layout.printItems] using parted_of_sign? rfl

theorem parted_printMembers (l : Layout) (level : Nat) (ms : List (String × Json))
    {rest : List Char} (h : Parted rest) : Parted ((l.printMembers level ms).toList ++ rest) := by
  cases ms with
  | nil => simpa [Layout.printMembers] using h
  | cons m ms => simpa [Layout.printMembers] using parted_of_sign? rfl

theorem parted_close (l : Layout) (level : Nat) {c : Char} {t : Token} (h : sign? c = some t)
    (rest : List Char) : Parted ((l.line level).toList ++ c :: rest) :=
  parted_append (l.all_line level) (parted_of_sign? h)

mutual
theorem tokensFrom_print (l : Layout) (level : Nat) (v : Json) (hv : v.Sound) (read : List Token)
    {rest : List Char} (h : Parted rest) :
    tokensFrom read ((l.print level v).toList ++ rest) =
      tokensFrom (v.tokenList.reverse ++ read) rest := by
  match v with
  | null =>
    simpa [Layout.print, tokenList] using
      tokensFrom_keyword read ['n', 'u', 'l', 'l'] rfl h
  | bool true =>
    simpa [Layout.print, tokenList] using
      tokensFrom_keyword read ['t', 'r', 'u', 'e'] rfl h
  | bool false =>
    simpa [Layout.print, tokenList] using
      tokensFrom_keyword read ['f', 'a', 'l', 's', 'e'] rfl h
  | int n => simpa [Layout.print, tokenList] using tokensFrom_int read n h
  | decimal s =>
    simpa [Layout.print, tokenList] using tokensFrom_number read hv.1 hv.2 h
  | str s => simpa [Layout.print, tokenList] using tokensFrom_literal read s rest
  | unpaired => simpa [Layout.print, tokenList] using tokensFrom_unpaired read rest
  | arr [] | obj [] => simp [Layout.print, tokenList, tokensFrom_signs]
  | arr (v :: vs) =>
    have hclose := parted_close l level (c := ']') rfl rest
    simp [Layout.print, tokenList, tokensFrom_signs, tokensFrom_spaces _ (l.all_line _),
      tokensFrom_print _ _ v hv.1 _ (parted_printItems _ _ _ hclose),
      tokensFrom_printItems _ _ vs hv.2 _ hclose]
  | obj ((k, v) :: ms) =>
    have hclose := parted_close l level (c := '}') rfl rest
    simp [Layout.print, tokenList, tokensFrom_signs, tokensFrom_spaces _ (l.all_line _),
      tokensFrom_spaces _ l.all_gap, tokensFrom_literal,
      tokensFrom_print _ _ v hv.1 _ (parted_printMembers _ _ _ hclose),
      tokensFrom_printMembers _ _ ms hv.2 _ hclose]

theorem tokensFrom_printItems (l : Layout) (level : Nat) (vs : List Json) (hvs : SoundItems vs)
    (read : List Token) {rest : List Char} (h : Parted rest) :
    tokensFrom read ((l.printItems level vs).toList ++ rest) =
      tokensFrom ((itemTokens vs).reverse ++ read) rest := by
  match vs with
  | [] => simp [Layout.printItems, itemTokens]
  | v :: vs =>
    simp [Layout.printItems, itemTokens, tokensFrom_signs, tokensFrom_spaces _ (l.all_line _),
      tokensFrom_print _ _ v hvs.1 _ (parted_printItems _ _ _ h),
      tokensFrom_printItems _ _ vs hvs.2 _ h]

theorem tokensFrom_printMembers (l : Layout) (level : Nat) (ms : List (String × Json))
    (hms : SoundMembers ms) (read : List Token) {rest : List Char} (h : Parted rest) :
    tokensFrom read ((l.printMembers level ms).toList ++ rest) =
      tokensFrom ((memberTokens ms).reverse ++ read) rest := by
  match ms with
  | [] => simp [Layout.printMembers, memberTokens]
  | (k, v) :: ms =>
    simp [Layout.printMembers, memberTokens, tokensFrom_signs, tokensFrom_spaces _ (l.all_line _),
      tokensFrom_spaces _ l.all_gap, tokensFrom_literal,
      tokensFrom_print _ _ v hms.1 _ (parted_printMembers _ _ _ h),
      tokensFrom_printMembers _ _ ms hms.2 _ h]
end

/-- In every layout, the text of a value has the tokens of the value. -/
theorem tokens_print (l : Layout) {v : Json} (hv : v.Sound) :
    tokens (l.print 0 v) = some v.tokenList := by
  have hend : Parted [] := trivial
  have hscan := tokensFrom_print l 0 v hv [] hend
  rw [List.append_nil, List.append_nil] at hscan
  rw [tokens, hscan, tokensFrom, List.reverse_reverse]

end Conformance.Json
