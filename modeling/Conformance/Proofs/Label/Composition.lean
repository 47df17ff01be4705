import Conformance.Proofs.Label.Acceptance
import Conformance.Proofs.Label.Seams
import Conformance.Settings.Basic

/-!
Filters put together as texts. Alternatives, parentheses and negations of the texts of filters are
the texts of filters, which select accordingly; a filter of all configured tags is the alternative
of the filters that the tags are.
-/
namespace Conformance.Label

section Derivations

/-- The chain of the conjunctions of both. -/
def Disjunction.append : Disjunction → Disjunction → Disjunction
  | .one first, d => .more first d
  | .more first rest, d => .more first (rest.append d)

theorem Disjunction.tokens_append (d d' : Disjunction) :
    (d.append d').tokens = d.tokens ++ .or :: d'.tokens := by
  cases d with
  | one _ => rfl
  | more first rest => simp [append, tokens, Disjunction.tokens_append rest d']

theorem Disjunction.nesting_append (d d' : Disjunction) :
    (d.append d').nesting = max d.nesting d'.nesting := by
  cases d with
  | one _ => rfl
  | more first rest => simp [append, nesting, Disjunction.nesting_append rest d', Nat.max_assoc]

theorem Disjunction.truth_append (labels : List String) (d d' : Disjunction) :
    (d.append d').truth labels = (d.truth labels || d'.truth labels) := by
  cases d with
  | one _ => rfl
  | more first rest =>
    simp [append, truth, Disjunction.truth_append labels rest d', Bool.or_assoc]

/-- A single term. -/
def Unary.alone (u : Unary) : Disjunction := .one (.one u)

theorem parse_of_derivation {text : String} {d : Disjunction} (h : Spells text.toList d.tokens)
    (hn : d.nesting ≤ maxNesting) :
    ∃ filter, Filter.parse text = .ok filter ∧ ∀ labels, filter.selects labels = d.truth labels :=
  ⟨⟨text, d.expr⟩, (parse_eq_ok_iff_exists_disjunction text _).mpr ⟨rfl, d, h, hn, rfl⟩,
    fun labels => d.holds_expr labels⟩

theorem exists_derivation {text : String} {filter : Filter} (h : Filter.parse text = .ok filter) :
    ∃ d : Disjunction, Spells text.toList d.tokens ∧ d.nesting ≤ maxNesting ∧
      ∀ labels, filter.selects labels = d.truth labels := by
  obtain ⟨-, d, hspells, hn, hd⟩ := (parse_eq_ok_iff_exists_disjunction text filter).mp h
  refine ⟨d, hspells, hn, fun labels => ?_⟩
  rw [Filter.selects, ← hd, d.holds_expr]

/-- The negations and parentheses of the text enclose one another to a depth of at most `n`. -/
def NestsWithin (n : Nat) (text : String) : Prop :=
  ∃ d : Disjunction, Spells text.toList d.tokens ∧ d.nesting ≤ n

end Derivations

section Alternatives

/-- A spelling of the sign between alternatives. -/
def separators : List String := [",", "||"]

theorem spells_separated {cs ds : List Char} {ts us : List Token} {separator : String}
    (hseparator : separator ∈ separators) (h : Spells cs ts) (h' : Spells ds us) :
    Spells (cs ++ (separator.toList ++ ds)) (ts ++ .or :: us) := by
  simp only [separators, List.mem_cons, List.not_mem_nil, or_false] at hseparator
  rcases hseparator with rfl | rfl
  · exact h.append (.comma h') (seam_of_sign (by decide))
  · exact h.append (.bars h') (seam_of_sign (by decide))

theorem parse_alternatives {s t separator : String} {f g : Filter}
    (hseparator : separator ∈ separators) (hf : Filter.parse s = .ok f)
    (hg : Filter.parse t = .ok g) :
    ∃ h, Filter.parse (s ++ separator ++ t) = .ok h ∧
      ∀ labels, h.selects labels = (f.selects labels || g.selects labels) := by
  obtain ⟨d, hs, hd, hf⟩ := exists_derivation hf
  obtain ⟨d', ht, hd', hg⟩ := exists_derivation hg
  have hspells : Spells (s ++ separator ++ t).toList (d.append d').tokens := by
    rw [String.toList_append, String.toList_append, List.append_assoc, d.tokens_append]
    exact spells_separated hseparator hs ht
  obtain ⟨h, hparse, hselects⟩ :=
    parse_of_derivation hspells (d.nesting_append d' ▸ Nat.max_le.mpr ⟨hd, hd'⟩)
  refine ⟨h, hparse, fun labels => ?_⟩
  rw [hselects, d.truth_append, hf, hg]

/-- Texts that are filters, joined by commas, are the filter of what any of them selects. -/
theorem parse_intercalate {texts : List String} (hne : texts ≠ [])
    (h : ∀ text ∈ texts, ∃ f, Filter.parse text = .ok f) :
    ∃ f, Filter.parse (",".intercalate texts) = .ok f ∧ ∀ labels, f.selects labels = true ↔
      ∃ text ∈ texts, ∃ g, Filter.parse text = .ok g ∧ g.selects labels = true := by
  induction texts with
  | nil => exact absurd rfl hne
  | cons text rest ih =>
    obtain ⟨⟨f, hf⟩, hrest⟩ := List.forall_mem_cons.mp h
    have hfirst (labels : List String) : f.selects labels = true ↔
        ∃ g, Filter.parse text = .ok g ∧ g.selects labels = true := by
      rw [hf]
      simp
    cases rest with
    | nil =>
      refine ⟨f, String.intercalate_singleton ▸ hf, fun labels => ?_⟩
      simpa using hfirst labels
    | cons next later =>
      obtain ⟨g, hg, hselects⟩ := ih (List.cons_ne_nil next later) hrest
      obtain ⟨k, hk, hwhole⟩ := parse_alternatives List.mem_cons_self hf hg
      refine ⟨k, String.intercalate_cons_cons ▸ hk, fun labels => ?_⟩
      rw [hwhole, Bool.or_eq_true, hfirst, hselects]
      simp only [List.mem_cons, or_and_right, exists_or, exists_eq_left]

end Alternatives

section Parentheses

theorem spells_parentheses {cs : List Char} {ts : List Token} (h : Spells cs ts) :
    Spells ('(' :: (cs ++ [')'])) (.opening :: (ts ++ [.closing])) :=
  .opening (h.append (.closing .nil) (seam_of_sign (by decide)))

variable {s text : String} {f h : Filter} {around : Disjunction → Unary}

/-- A text around that of a filter is a filter if it nests within the bound, and selects what the
term around the derivation makes true. -/
theorem parse_around_iff (depth : Nat) (hdepth : depth ≤ maxNesting)
    (hspells : ∀ d : Disjunction, Spells s.toList d.tokens →
      Spells text.toList (around d).alone.tokens)
    (hnesting : ∀ d : Disjunction, (around d).alone.nesting = d.nesting + depth)
    (hf : Filter.parse s = .ok f) :
    (∃ h, Filter.parse text = .ok h) ↔ NestsWithin (maxNesting - depth) s := by
  constructor
  · rintro ⟨h, hparse⟩
    obtain ⟨d, hs, -, -⟩ := exists_derivation hf
    obtain ⟨d', htext, hn, -⟩ := exists_derivation hparse
    obtain rfl := Disjunction.eq_of_tokens (htext.unique (hspells d hs))
    rw [hnesting] at hn
    exact ⟨d, hs, Nat.le_sub_of_add_le hn⟩
  · rintro ⟨d, hs, hn⟩
    have hwithin := hnesting d ▸ Nat.add_le_of_le_sub hdepth hn
    obtain ⟨h, hparse, -⟩ := parse_of_derivation (hspells d hs) hwithin
    exact ⟨h, hparse⟩

theorem selects_around
    (hspells : ∀ d : Disjunction, Spells s.toList d.tokens →
      Spells text.toList (around d).alone.tokens)
    (hf : Filter.parse s = .ok f) (hh : Filter.parse text = .ok h) :
    ∃ d : Disjunction, (∀ labels, f.selects labels = d.truth labels) ∧
      ∀ labels, h.selects labels = (around d).alone.truth labels := by
  obtain ⟨d, hs, -, hf⟩ := exists_derivation hf
  obtain ⟨d', htext, -, hh⟩ := exists_derivation hh
  obtain rfl := Disjunction.eq_of_tokens (htext.unique (hspells d hs))
  exact ⟨d, hf, hh⟩

def inParentheses (d : Disjunction) : Unary := .primary (.parens d)

def denied (d : Disjunction) : Unary := .not (inParentheses d)

theorem spells_inParentheses (d : Disjunction) (h : Spells s.toList d.tokens) :
    Spells ("(" ++ s ++ ")").toList (inParentheses d).alone.tokens := by
  rw [String.toList_append, String.toList_append]
  exact spells_parentheses h

theorem spells_denied (d : Disjunction) (h : Spells s.toList d.tokens) :
    Spells ("!(" ++ s ++ ")").toList (denied d).alone.tokens := by
  rw [String.toList_append, String.toList_append]
  exact .not (spells_parentheses h)

end Parentheses

section Tags

/-- A word, as one token. -/
def IsWord (text : String) : Prop := text ≠ "" ∧ ∀ c ∈ text.toList, isWordChar c = true

theorem IsWord.spells {text : String} (h : IsWord text) :
    Spells text.toList (Unary.primary (.word text)).alone.tokens := by
  obtain ⟨hne, hword⟩ := h
  obtain ⟨c, w, htext⟩ : ∃ c w, text.toList = c :: w := by
    refine List.exists_cons_of_ne_nil fun hnil => hne ?_
    rwa [String.toList_eq_nil_iff] at hnil
  have h := spells_word (htext ▸ hword)
  rwa [← htext, String.ofList_toList] at h

/-- A word is the filter of the checks that carry it as a label. -/
theorem IsWord.parse {text : String} (h : IsWord text) :
    ∃ f, Filter.parse text = .ok f ∧ ∀ labels, f.selects labels = true ↔ text ∈ labels := by
  obtain ⟨f, hparse, hselects⟩ := parse_of_derivation h.spells (Nat.zero_le _)
  refine ⟨f, hparse, fun labels => ?_⟩
  rw [hselects]
  exact decide_eq_true_iff

/-- White space is taken off around a text that neither begins nor ends with any. -/
theorem trim_around {before text after : String} (hbefore : Text.isBlankText before = true)
    (hafter : Text.isBlankText after = true) (hne : text.toList ≠ [])
    (hfirst : ∀ c ∈ text.toList.head?, Text.isBlank c = false)
    (hlast : ∀ c ∈ text.toList.getLast?, Text.isBlank c = false) :
    Text.trim (before ++ text ++ after) = text := by
  have hbefore := List.all_eq_true.mp hbefore
  have hend : (after.toList.reverse ++ (before.toList ++ text.toList).reverse).dropWhile
      Text.isBlank = (before.toList ++ text.toList).reverse := by
    refine (Text.span_append (fun c hc => ?_) fun c hc => hlast c ?_).2
    · exact List.all_eq_true.mp hafter c (List.mem_reverse.mp hc)
    · rw [List.head?_reverse, List.getLast?_append, List.getLast?_eq_some_getLast hne] at hc
      rwa [List.getLast?_eq_some_getLast hne]
  have hstart := (Text.span_append hbefore hfirst).2
  rw [Text.trim, Text.trimEnd, Text.trimStart, String.toList_append, String.toList_append,
    List.reverse_append, hend, List.reverse_reverse, String.toList_ofList, hstart,
    String.ofList_toList]

end Tags

/-- Filters compose as texts. For all texts that are filters, the alternative of two of them is a
filter of what the one or the other selects; a text in parentheses, or in parentheses under a
negation, is a filter exactly when the text leaves room for these in the bound on nesting, and then
selects the same or the opposite. So a filter of the word for all tags, whatever white space is
around it, selects what any of the tags does, and if the tags are words, what carries one of them.
-/
theorem filters_compose :
    (∀ (s t : String) (f g : Filter), Filter.parse s = .ok f → Filter.parse t = .ok g →
      ∀ separator ∈ [",", "||"], ∃ h, Filter.parse (s ++ separator ++ t) = .ok h ∧
        ∀ labels, h.selects labels = (f.selects labels || g.selects labels)) ∧
    (∀ (s : String) (f : Filter), Filter.parse s = .ok f →
      ((∃ h, Filter.parse ("(" ++ s ++ ")") = .ok h) ↔ NestsWithin 255 s) ∧
      ((∃ h, Filter.parse ("!(" ++ s ++ ")") = .ok h) ↔ NestsWithin 254 s) ∧
      ∀ h, (Filter.parse ("(" ++ s ++ ")") = .ok h →
          ∀ labels, h.selects labels = f.selects labels) ∧
        (Filter.parse ("!(" ++ s ++ ")") = .ok h →
          ∀ labels, h.selects labels = !f.selects labels)) ∧
    ∀ (settings : Settings) (before after : String), Text.isBlankText before = true →
      Text.isBlankText after = true → settings.labelFilter = before ++ "all" ++ after →
      settings.tags ≠ [] →
      ((∀ tag ∈ settings.tags, ∃ f, Filter.parse tag = .ok f) →
        ∃ h, settings.filter = .ok h ∧ ∀ labels, h.selects labels = true ↔
          ∃ tag ∈ settings.tags, ∃ f, Filter.parse tag = .ok f ∧ f.selects labels = true) ∧
      ((∀ tag ∈ settings.tags, IsWord tag) →
        ∃ h, settings.filter = .ok h ∧ ∀ labels, h.selects labels = true ↔
          ∃ tag ∈ settings.tags, tag ∈ labels) := by
  refine ⟨fun s t f g hf hg separator hseparator => parse_alternatives hseparator hf hg,
    fun s f hf => ⟨?_, ?_, fun h => ⟨fun hh labels => ?_, fun hh labels => ?_⟩⟩,
    fun settings before after hbefore hafter hall hne => ?_⟩
  · exact parse_around_iff 1 (by decide) spells_inParentheses (fun _ => rfl) hf
  · exact parse_around_iff 2 (by decide) spells_denied (fun _ => rfl) hf
  · obtain ⟨d, hf, hh⟩ := selects_around spells_inParentheses hf hh
    rw [hh, hf]
    rfl
  · obtain ⟨d, hf, hh⟩ := selects_around spells_denied hf hh
    rw [hh, hf]
    rfl
  · have hletters : (∀ c ∈ "all".toList.head?, Text.isBlank c = false) ∧
        ∀ c ∈ "all".toList.getLast?, Text.isBlank c = false := by
      constructor <;> intro c hc <;> cases hc <;> decide
    have hfilter : settings.filter = Filter.parse (",".intercalate settings.tags) := by
      rw [Settings.filter, hall, expandAll,
        trim_around hbefore hafter (by decide) hletters.1 hletters.2, if_pos rfl]
    rw [hfilter]
    refine ⟨parse_intercalate hne, fun hwords => ?_⟩
    obtain ⟨h, hh, hselects⟩ := parse_intercalate hne fun tag htag =>
      (hwords tag htag).parse.imp fun _ => And.left
    refine ⟨h, hh, fun labels => ?_⟩
    rw [hselects]
    refine exists_congr fun tag => and_congr_right fun htag => ?_
    obtain ⟨f, hf, hlabel⟩ := (hwords tag htag).parse
    rw [hf, ← hlabel]
    simp

section Telco

def spacedAll : Settings := { Settings.default with labelFilter := "\t all " }

theorem filters_compose_telco :
    (∃ h, Filter.parse ("telco" ++ "||" ++ "common") = .ok h ∧ h.selects ["common"] = true ∧
      h.selects ["rare"] = false) ∧
    (∃ h, Filter.parse ("!(" ++ "telco" ++ ")") = .ok h ∧ h.selects ["telco"] = false ∧
      h.selects ["rare"] = true) ∧
    ∃ h, spacedAll.filter = .ok h ∧ h.selects ["telco"] = true ∧
      h.selects ["preflight"] = false := by
  obtain ⟨halternatives, haround, htags⟩ := filters_compose
  have htelco : IsWord "telco" := ⟨by decide, List.all_eq_true.mp (by decide +kernel)⟩
  have hcommon : IsWord "common" := ⟨by decide, List.all_eq_true.mp (by decide +kernel)⟩
  obtain ⟨f, hf, hftelco⟩ := htelco.parse
  obtain ⟨g, hg, hgcommon⟩ := hcommon.parse
  refine ⟨?_, ?_, ?_⟩
  · obtain ⟨h, hh, hselects⟩ := halternatives "telco" "common" f g hf hg "||" (by decide)
    refine ⟨h, hh, ?_, ?_⟩
    · rw [hselects, (hgcommon _).mpr (by decide), Bool.or_true]
    · rw [hselects, Bool.or_eq_false_iff, ← Bool.not_eq_true, ← Bool.not_eq_true, hftelco, hgcommon]
      decide
  · obtain ⟨-, hdenied, hselects⟩ := haround "telco" f hf
    obtain ⟨h, hh⟩ := hdenied.mpr ⟨_, htelco.spells, Nat.zero_le _⟩
    refine ⟨h, hh, ?_, ?_⟩
    · rw [(hselects h).2 hh, (hftelco _).mpr (by decide), Bool.not_true]
    · rw [(hselects h).2 hh, Bool.not_eq_true', ← Bool.not_eq_true, hftelco]
      decide
  · obtain ⟨-, hwords⟩ := htags spacedAll "\t " " " (by decide) (by decide) rfl (by decide)
    have htags : ∀ tag ∈ spacedAll.tags, tag ≠ "" ∧ tag.toList.all isWordChar = true := by
      decide +kernel
    obtain ⟨h, hh, hselects⟩ := hwords fun tag htag =>
      (htags tag htag).imp_right List.all_eq_true.mp
    refine ⟨h, hh, (hselects _).mpr (by decide), ?_⟩
    rw [← Bool.not_eq_true, hselects]
    decide

end Telco

end Conformance.Label
