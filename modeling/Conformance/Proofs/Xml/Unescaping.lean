import Conformance.Proofs.Xml.Grammar

/-!
Escaped text read back. Replacing every reference to a predefined entity by its character undoes the
escaping, whatever the text looks like, because each '&' of escaped text begins a reference and no
other markup is left in it.
-/
namespace Conformance.Xml

/-- The text with the characters of the predefined entities in the place of the references. -/
def unescapeChars : List Char → List Char
  | '&' :: 'a' :: 'm' :: 'p' :: ';' :: rest => '&' :: unescapeChars rest
  | '&' :: 'l' :: 't' :: ';' :: rest => '<' :: unescapeChars rest
  | '&' :: 'g' :: 't' :: ';' :: rest => '>' :: unescapeChars rest
  | '&' :: 'q' :: 'u' :: 'o' :: 't' :: ';' :: rest => '"' :: unescapeChars rest
  | '&' :: 'a' :: 'p' :: 'o' :: 's' :: ';' :: rest => '\'' :: unescapeChars rest
  | c :: rest => c :: unescapeChars rest
  | [] => []

def unescape (s : String) : String := String.ofList (unescapeChars s.toList)

theorem unescapeChars_cons {c : Char} (h : c ≠ '&') (rest : List Char) :
    unescapeChars (c :: rest) = c :: unescapeChars rest := by
  rw [unescapeChars]
  all_goals
    rintro _ rfl
    exact absurd rfl h

/-- The characters that are markup, apart from the '&' with which references begin. -/
def delimiters : List Char := ['<', '>', '"', '\'']

/-- A character is escaped, or it is no markup. -/
theorem escapeChar_cases (c : Char) :
    (∃ name, entity? c = some name ∧ escapeChar c = name.toList) ∨
      c ≠ '&' ∧ c ∉ delimiters ∧ escapeChar c = [c] := by
  unfold escapeChar
  cases h : entity? c with
  | some name => exact .inl ⟨name, rfl, rfl⟩
  | none =>
    have hplain : ∀ d, entity? d ≠ none → c ≠ d := fun d hd hcd => hd (hcd ▸ h)
    have hdelimiters : (delimiters.all fun d => (entity? d).isSome) = true := rfl
    refine .inr ⟨hplain '&' nofun, fun hc => ?_, rfl⟩
    have hsome := List.all_eq_true.mp hdelimiters c hc
    rw [h] at hsome
    cases hsome

/-! ### Reading back -/

theorem unescapeChars_escapeChar_append (c : Char) (rest : List Char) :
    unescapeChars (escapeChar c ++ rest) = c :: unescapeChars rest := by
  rcases escapeChar_cases c with ⟨name, hname, hescape⟩ | ⟨hplain, -, hescape⟩
  · rw [hescape]
    unfold entity? at hname
    split at hname <;> cases hname <;> rfl
  · rw [hescape, List.singleton_append, unescapeChars_cons hplain]

theorem unescapeChars_escapeChars (cs : List Char) : unescapeChars (escapeChars cs) = cs := by
  induction cs with
  | nil => rfl
  | cons c rest ih =>
    rw [escapeChars, List.flatMap_cons, unescapeChars_escapeChar_append]
    exact congrArg (c :: ·) ih

theorem unescape_escape (s : String) : unescape (escape s) = s := by
  rw [unescape, escape, String.toList_ofList, unescapeChars_escapeChars, String.ofList_toList]

theorem escapeChars_inj {cs ds : List Char} (h : escapeChars cs = escapeChars ds) : cs = ds := by
  rw [← unescapeChars_escapeChars cs, h, unescapeChars_escapeChars]

theorem escape_inj {s t : String} (h : escape s = escape t) : s = t := by
  rw [← unescape_escape s, h, unescape_escape]

/-! ### What markup is left -/

theorem not_mem_escapeChars {c : Char} (h : c ∈ delimiters) (cs : List Char) :
    c ∉ escapeChars cs := by
  have hreferences : ∀ name ∈ references, (delimiters.all (· ∉ name.toList)) = true := by decide
  intro hc
  obtain ⟨d, -, hd⟩ := List.mem_flatMap.mp hc
  rcases escapeChar_cases d with ⟨name, hname, hescape⟩ | ⟨-, hplain, hescape⟩
  · rw [hescape] at hd
    have hclean := hreferences name (mem_references_of_entity? hname)
    exact of_decide_eq_true (List.all_eq_true.mp hclean c h) hd
  · rw [hescape] at hd
    exact hplain (List.mem_singleton.mp hd ▸ h)

/-- In text between markup each '&' begins a reference. The induction is on how the text is made,
and a '&' cannot stand in the middle of a reference because none has a second one. -/
theorem CharacterData.begins_reference {excluded : Char} {text : List Char}
    (h : CharacterData excluded text) {before after : List Char}
    (hsplit : text = before ++ '&' :: after) :
    ∃ name ∈ references, name.toList <+: '&' :: after := by
  have hreferences : ∀ name ∈ references,
      name.toList.head? = some '&' ∧ '&' ∉ name.toList.tail := by decide
  induction h generalizing before with
  | nil => exact absurd hsplit (List.append_ne_nil_of_right_ne_nil _ (List.cons_ne_nil _ _)).symm
  | char _ hc _ _ ih =>
    cases before with
    | nil => exact absurd (List.cons.inj hsplit).1 hc
    | cons b before => exact ih (List.cons.inj hsplit).2
  | @reference name rest hname _ ih =>
    obtain ⟨hhead, htail⟩ := hreferences name hname
    obtain ⟨tail, hshape⟩ := List.head?_eq_some_iff.mp hhead
    rw [hshape, List.tail_cons] at htail
    rw [hshape, List.cons_append] at hsplit
    cases before with
    | nil => exact ⟨name, hname, hshape ▸ ⟨rest, hsplit⟩⟩
    | cons b before =>
      rcases List.append_eq_append_iff.mp (List.cons.inj hsplit).2 with
        ⟨between, -, hrest⟩ | ⟨between, hbefore, hrest⟩
      · exact ih hrest
      · cases between with
        | nil => exact @ih [] hrest.symm
        | cons d between =>
          obtain rfl := (List.cons.inj hrest).1
          exact absurd (hbefore ▸ List.mem_append_right _ List.mem_cons_self) htail

end Conformance.Xml
