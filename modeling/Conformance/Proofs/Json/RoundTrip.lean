import Conformance.Json.Reader
import Conformance.Proofs.Json.Tokens

/-!
Printing and reading are inverse: the text of a sound value, in whatever layout, is read as that
value.
-/
namespace Conformance.Json

open Reading

/-- The members of an object as they are kept while it is open. -/
def named (ms : List (String × Json)) : Members := (ms.map fun m => (some m.1, m.2)).reverse

theorem named_append (ms : List (String × Json)) (k : String) (v : Json) :
    named (ms ++ [(k, v)]) = (some k, v) :: named ms := by
  simp [named]

theorem ofMembers_named (ms : List (String × Json)) : ofMembers (named ms) = .obj ms := by
  have hall : (named ms).reverse.mapM (fun m => m.1.map (·, m.2)) = some ms := by
    rw [named, List.reverse_reverse]
    induction ms with
    | nil => rfl
    | cons m ms ih => simp [ih]
  rw [ofMembers, hall]

/-- The tokens of a value begin with one that a value may begin with. -/
theorem exists_tokenList (v : Json) : ∃ t ts, v.tokenList = t :: ts ∧ t ≠ .closeArray := by
  unfold tokenList
  split <;> exact ⟨_, _, rfl, by simp⟩

theorem read_firstItem (places : List Place) {t : Token} (h : t ≠ .closeArray) :
    read ⟨places, .firstItem⟩ t = read ⟨.item [] :: places, .value⟩ t := by
  cases t <;> first | rfl | exact absurd rfl h

/-- An array may be read from its first item on as from any other. -/
theorem foldlM_firstItem (places : List Place) (v : Json) (ts : List Token) :
    (v.tokenList ++ ts).foldlM read ⟨places, .firstItem⟩ =
      (v.tokenList ++ ts).foldlM read ⟨.item [] :: places, .value⟩ := by
  obtain ⟨t, rest, hv, hne⟩ := exists_tokenList v
  rw [hv, List.cons_append, List.foldlM_cons, List.foldlM_cons, read_firstItem places hne]

mutual
/-- Reading the tokens of a value where a value is due puts the value there. -/
theorem foldlM_tokenList (v : Json) (places : List Place) (ts : List Token) :
    (v.tokenList ++ ts).foldlM read ⟨places, .value⟩ = ts.foldlM read (put places v) := by
  match v with
  | null | bool _ | int _ | decimal _ | str _ | unpaired => rfl
  | arr [] | obj [] => rfl
  | arr (v :: vs) =>
    calc ((arr (v :: vs)).tokenList ++ ts).foldlM read ⟨places, .value⟩
        = (v.tokenList ++ (itemTokens vs ++ .closeArray :: ts)).foldlM read
            ⟨places, .firstItem⟩ := by
          simp [tokenList, List.foldlM_cons, Reading.read, readValue]
      _ = (itemTokens vs ++ .closeArray :: ts).foldlM read ⟨places, .afterItem [v]⟩ := by
          rw [foldlM_firstItem, foldlM_tokenList v]; rfl
      _ = ts.foldlM read (put places (arr (v :: vs))) := by
          rw [foldlM_itemTokens vs]
          simp [List.foldlM_cons, Reading.read]
  | obj ((k, v) :: ms) =>
    calc ((obj ((k, v) :: ms)).tokenList ++ ts).foldlM read ⟨places, .value⟩
        = (v.tokenList ++ (memberTokens ms ++ .closeObject :: ts)).foldlM read
            ⟨.member [] (some k) :: places, .value⟩ := by
          simp [tokenList, List.foldlM_cons, Reading.read, readValue, readKey]
      _ = (memberTokens ms ++ .closeObject :: ts).foldlM read
            ⟨places, .afterMember (named [(k, v)])⟩ := by
          rw [foldlM_tokenList v]; rfl
      _ = ts.foldlM read (put places (obj ((k, v) :: ms))) := by
          rw [foldlM_memberTokens ms]
          simp [List.foldlM_cons, Reading.read, ofMembers_named]

theorem foldlM_itemTokens (vs : List Json) (places : List Place) (before : List Json)
    (ts : List Token) :
    (itemTokens vs ++ ts).foldlM read ⟨places, .afterItem before⟩ =
      ts.foldlM read ⟨places, .afterItem (vs.reverse ++ before)⟩ := by
  match vs with
  | [] => rfl
  | v :: vs =>
    have hcomma : (itemTokens (v :: vs) ++ ts).foldlM read ⟨places, .afterItem before⟩ =
        (v.tokenList ++ (itemTokens vs ++ ts)).foldlM read ⟨.item before :: places, .value⟩ := by
      simp [itemTokens, List.foldlM_cons, Reading.read]
    rw [hcomma, foldlM_tokenList v, put, foldlM_itemTokens vs]
    simp

theorem foldlM_memberTokens (ms : List (String × Json)) (places : List Place)
    (before : List (String × Json)) (ts : List Token) :
    (memberTokens ms ++ ts).foldlM read ⟨places, .afterMember (named before)⟩ =
      ts.foldlM read ⟨places, .afterMember (named (before ++ ms))⟩ := by
  match ms with
  | [] => simp [memberTokens]
  | (k, v) :: ms =>
    have hcomma : (memberTokens ((k, v) :: ms) ++ ts).foldlM read
          ⟨places, .afterMember (named before)⟩ =
        (v.tokenList ++ (memberTokens ms ++ ts)).foldlM read
          ⟨.member (named before) (some k) :: places, .value⟩ := by
      simp [memberTokens, List.foldlM_cons, Reading.read, readKey]
    rw [hcomma, foldlM_tokenList v, put, ← named_append, foldlM_memberTokens ms]
    simp
end

theorem ofTokens?_tokenList (v : Json) : ofTokens? v.tokenList = some v := by
  have hread := foldlM_tokenList v [] []
  rw [List.append_nil] at hread
  simp [ofTokens?, Reading.start, hread, put, value?]

theorem parse?_print (l : Layout) {v : Json} (hv : v.Sound) : parse? (l.print 0 v) = some v := by
  simp [parse?, tokens_print l hv, ofTokens?_tokenList]

/-- A sound value is read back from both of its texts. -/
theorem parse?_compact {v : Json} (hv : v.Sound) : parse? v.compact = some v := by
  rw [← Layout.print_compact 0, parse?_print _ hv]

theorem parse?_indented {v : Json} (hv : v.Sound) : parse? v.indented = some v := by
  rw [indented, ← Layout.print_indented 0, parse?_print _ hv]

end Conformance.Json
