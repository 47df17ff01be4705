import Conformance.Xml.Node
import Mathlib.Data.List.Basic

/-!
A grammar of XML 1.0 documents, and the documents of trees. The names of elements and attributes are
made of ASCII letters only, text has no '>' of its own, and the only references are those to the
predefined entities, so that whatever belongs to the grammar is well-formed for a reader of XML, as
long as it has no characters but those that XML allows.
-/
namespace Conformance.Xml

/-- The characters of XML 1.0. -/
def IsChar (c : Char) : Prop :=
  c.toNat = 0x9 ∨ c.toNat = 0xA ∨ c.toNat = 0xD ∨ 0x20 ≤ c.toNat ∧ c.toNat ≤ 0xD7FF ∨
    0xE000 ≤ c.toNat ∧ c.toNat ≤ 0xFFFD ∨ 0x10000 ≤ c.toNat ∧ c.toNat ≤ 0x10FFFF

instance (c : Char) : Decidable (IsChar c) := inferInstanceAs (Decidable (_ ∨ _))

/-- Text of which no character is forbidden. -/
def Legible (cs : List Char) : Prop := ∀ c ∈ cs, IsChar c

instance (cs : List Char) : Decidable (Legible cs) := List.decidableBAll IsChar cs

theorem legible_append {cs ds : List Char} :
    Legible (cs ++ ds) ↔ Legible cs ∧ Legible ds := List.forall_mem_append

theorem legible_cons {c : Char} {cs : List Char} : Legible (c :: cs) ↔ IsChar c ∧ Legible cs :=
  List.forall_mem_cons

def IsName (name : List Char) : Prop := name ≠ [] ∧ ∀ c ∈ name, c.isAlpha = true

instance (name : List Char) : Decidable (IsName name) :=
  have : Decidable (∀ c ∈ name, c.isAlpha = true) := List.decidableBAll _ name
  inferInstanceAs (Decidable (_ ∧ _))

def references : List String := ["&amp;", "&lt;", "&gt;", "&quot;", "&apos;"]

/-- Characters that are not markup and not the excluded one, and references. -/
inductive CharacterData (excluded : Char) : List Char → Prop where
  | nil : CharacterData excluded []
  | char {c : Char} {rest : List Char} : c ≠ '<' → c ≠ '&' → c ≠ excluded →
      CharacterData excluded rest → CharacterData excluded (c :: rest)
  | reference {name : String} {rest : List Char} : name ∈ references →
      CharacterData excluded rest → CharacterData excluded (name.toList ++ rest)

/-- Attributes in quotes, no two of one name. -/
inductive Attributes : List (List Char) → List Char → Prop where
  | nil : Attributes [] []
  | cons {name value rest : List Char} {names : List (List Char)} : IsName name → name ∉ names →
      CharacterData '"' value → Attributes names rest →
      Attributes (name :: names) (' ' :: name ++ '=' :: '"' :: value ++ '"' :: rest)

/-- What may stand between the tags of an element. Every element in it is closed. -/
inductive Content : List Char → Prop where
  | nil : Content []
  | text {text rest : List Char} : CharacterData '>' text → Content rest → Content (text ++ rest)
  | empty {name attributes rest : List Char} {names : List (List Char)} : IsName name →
      Attributes names attributes → Content rest →
      Content ('<' :: name ++ attributes ++ " />".toList ++ rest)
  | element {name attributes body rest : List Char} {names : List (List Char)} : IsName name →
      Attributes names attributes → Content body → Content rest →
      Content ('<' :: name ++ attributes ++ '>' :: body ++ "</".toList ++ name ++ '>' :: rest)

/-- One element of the given name, after the declaration of the version and the encoding. -/
def IsDocument (root : String) (text : List Char) : Prop :=
  ∃ names attributes body, Attributes names attributes ∧ Content body ∧
    text = "<?xml version=\"1.0\" encoding=\"UTF-8\"?>\n".toList ++ '<' :: root.toList ++
      attributes ++ '>' :: body ++ "</".toList ++ root.toList ++ ['>']

/-- A document of the grammar in the characters of XML 1.0. -/
structure WellFormed (root : String) (text : String) : Prop where
  document : IsDocument root text.toList
  legible : Legible text.toList

/-! ### Escaped text and names -/

theorem mem_references_of_entity? {c : Char} {name : String} (h : entity? c = some name) :
    name ∈ references := by
  unfold entity? at h
  split at h <;> cases h <;> decide

theorem characterData_escapeChars (cs : List Char) {excluded : Char}
    (h : excluded = '"' ∨ excluded = '>') : CharacterData excluded (escapeChars cs) := by
  induction cs with
  | nil => exact .nil
  | cons c rest ih =>
    rw [escapeChars, List.flatMap_cons, escapeChar]
    cases hc : entity? c with
    | some name => exact .reference (mem_references_of_entity? hc) ih
    | none =>
      have hplain : c ≠ '<' ∧ c ≠ '&' ∧ c ≠ excluded := by
        refine ⟨?_, ?_, ?_⟩
        · rintro rfl
          cases hc
        · rintro rfl
          cases hc
        · rintro rfl
          rcases h with rfl | rfl <;> cases hc
      exact .char hplain.1 hplain.2.1 hplain.2.2 ih

theorem legible_escapeChars {cs : List Char} : Legible (escapeChars cs) ↔ Legible cs := by
  induction cs with
  | nil => exact Iff.rfl
  | cons c rest ih =>
    rw [escapeChars, List.flatMap_cons, legible_append, legible_cons]
    refine and_congr ?_ ih
    unfold escapeChar
    cases hc : entity? c with
    | none => exact List.forall_mem_singleton
    | some name =>
      unfold entity? at hc
      split at hc <;> cases hc <;> decide

theorem isChar_of_mem_range {c : Char} {low high : Nat} (hrange : low ≤ c.toNat ∧ c.toNat ≤ high)
    (hlow : 0x20 ≤ low) (hhigh : high ≤ 0xD7FF) : IsChar c :=
  .inr (.inr (.inr (.inl ⟨Nat.le_trans hlow hrange.1, Nat.le_trans hrange.2 hhigh⟩)))

theorem legible_of_isName {name : List Char} (h : IsName name) : Legible name := by
  intro c hc
  rcases Bool.or_eq_true_iff.mp (h.2 c hc) with hupper | hlower
  · obtain ⟨hlow, hhigh⟩ := of_decide_eq_true hupper
    exact isChar_of_mem_range ⟨UInt32.le_iff_toNat_le.mp hlow, UInt32.le_iff_toNat_le.mp hhigh⟩
      (by decide) (by decide)
  · obtain ⟨hlow, hhigh⟩ := Bool.and_eq_true_iff.mp hlower
    exact isChar_of_mem_range ⟨UInt32.le_iff_toNat_le.mp (of_decide_eq_true hlow),
      UInt32.le_iff_toNat_le.mp (of_decide_eq_true hhigh)⟩ (by decide) (by decide)

/-! ### Trees -/

namespace Node

/-- A tag whose names are names, with no two attributes of one name. -/
def ProperTag (name : String) (keys : List String) : Prop :=
  IsName name.toList ∧ (∀ key ∈ keys, IsName key.toList) ∧ keys.Nodup

instance (name : String) (keys : List String) : Decidable (ProperTag name keys) :=
  inferInstanceAs (Decidable (_ ∧ _))

mutual
def IsProper : Node → Prop
  | text _ => True
  | empty name attributes => ProperTag name (attributes.map Prod.fst)
  | element name attributes content => ProperTag name (attributes.map Prod.fst) ∧ AllProper content

def AllProper : List Node → Prop
  | [] => True
  | node :: rest => node.IsProper ∧ AllProper rest
end

theorem allProper_iff {nodes : List Node} : AllProper nodes ↔ ∀ node ∈ nodes, node.IsProper := by
  induction nodes with
  | nil => exact iff_of_true trivial nofun
  | cons node rest ih => rw [AllProper, ih, List.forall_mem_cons]

mutual
/-- No text and no value of an attribute has a character that XML does not allow. -/
def IsLegible : Node → Prop
  | text content => Legible content.toList
  | empty _ attributes => ∀ a ∈ attributes, Legible a.2.toList
  | element _ attributes content =>
    (∀ a ∈ attributes, Legible a.2.toList) ∧ AllLegible content

def AllLegible : List Node → Prop
  | [] => True
  | node :: rest => node.IsLegible ∧ AllLegible rest
end

theorem allLegible_iff {nodes : List Node} :
    AllLegible nodes ↔ ∀ node ∈ nodes, node.IsLegible := by
  induction nodes with
  | nil => exact iff_of_true trivial nofun
  | cons node rest ih => rw [AllLegible, ih, List.forall_mem_cons]

theorem toList_attributesText_cons (a : String × String) (rest : List (String × String)) :
    (attributesText (a :: rest)).toList = ' ' :: a.1.toList ++ '=' :: '"' ::
      escapeChars a.2.toList ++ '"' :: (attributesText rest).toList := by
  simp [attributesText, attributeText, escape]

theorem attributes_attributesText {attributes : List (String × String)}
    (hnames : ∀ key ∈ attributes.map Prod.fst, IsName key.toList)
    (hnodup : (attributes.map Prod.fst).Nodup) :
    Attributes (attributes.map (·.1.toList)) (attributesText attributes).toList := by
  induction attributes with
  | nil => exact .nil
  | cons a rest ih =>
    obtain ⟨ha, hrest⟩ := List.forall_mem_cons.mp hnames
    obtain ⟨hnew, hnodup⟩ := List.nodup_cons.mp hnodup
    rw [toList_attributesText_cons, List.map_cons]
    refine .cons ha ?_ (characterData_escapeChars _ (.inl rfl)) (ih hrest hnodup)
    intro hmem
    obtain ⟨b, hb, hsame⟩ := List.mem_map.mp hmem
    exact hnew (List.mem_map.mpr ⟨b, hb, String.toList_inj.mp hsame⟩)

mutual
theorem content_render_append {rest : List Char} (hrest : Content rest) :
    (node : Node) → node.IsProper → Content (node.render.toList ++ rest)
  | text content, _ => by
    rw [render, escape, String.toList_ofList]
    exact .text (characterData_escapeChars _ (.inr rfl)) hrest
  | empty name attributes, h => by
    obtain ⟨hname, hnames, hnodup⟩ := h
    have := Content.empty hname (attributes_attributesText hnames hnodup) hrest
    simpa [render] using this
  | element name attributes content, h => by
    obtain ⟨⟨hname, hnames, hnodup⟩, hcontent⟩ := h
    have := Content.element hname (attributes_attributesText hnames hnodup)
      (content_renderAll content hcontent) hrest
    simpa [render] using this

theorem content_renderAll : (nodes : List Node) → AllProper nodes →
    Content (renderAll nodes).toList
  | [], _ => .nil
  | node :: rest, h => by
    rw [renderAll, String.toList_append]
    exact content_render_append (content_renderAll rest h.2) node h.1
end

/-- The document of a tree with an element at its root. -/
theorem isDocument_document {name : String} {attributes : List (String × String)}
    {content : List Node} (h : (element name attributes content).IsProper) :
    IsDocument name (document (element name attributes content)).toList := by
  obtain ⟨⟨-, hnames, hnodup⟩, hcontent⟩ := h
  refine ⟨_, _, _, attributes_attributesText hnames hnodup, content_renderAll content hcontent, ?_⟩
  simp [document, declaration, render]

/-! ### The characters of a tree -/

theorem legible_markup :
    Legible "<".toList ∧ Legible ">".toList ∧ Legible " />".toList ∧ Legible "</".toList := by
  decide

theorem legible_attributesText {attributes : List (String × String)}
    (hnames : ∀ key ∈ attributes.map Prod.fst, IsName key.toList) :
    Legible (attributesText attributes).toList ↔ ∀ a ∈ attributes, Legible a.2.toList := by
  induction attributes with
  | nil => exact iff_of_true nofun nofun
  | cons a rest ih =>
    obtain ⟨ha, hrest⟩ := List.forall_mem_cons.mp hnames
    have hspace : IsChar ' ' := by decide
    have hequals : IsChar '=' := by decide
    have hquote : IsChar '"' := by decide
    rw [toList_attributesText_cons, List.forall_mem_cons]
    simp only [legible_append, legible_cons, List.cons_append, List.append_assoc, ih hrest,
      legible_escapeChars, hspace, hequals, hquote, legible_of_isName ha, true_and]

mutual
theorem legible_render : (node : Node) → node.IsProper →
    (Legible node.render.toList ↔ node.IsLegible)
  | text content, _ => by
    rw [render, escape, String.toList_ofList, legible_escapeChars, IsLegible]
  | empty name attributes, h => by
    obtain ⟨hname, hnames, -⟩ := h
    obtain ⟨hopen, -, hclose, -⟩ := legible_markup
    simp only [render, IsLegible, String.toList_append, legible_append, legible_of_isName hname,
      legible_attributesText hnames, hopen, hclose, true_and, and_true]
  | element name attributes content, h => by
    obtain ⟨⟨hname, hnames, -⟩, hcontent⟩ := h
    obtain ⟨hopen, hclose, -, hend⟩ := legible_markup
    simp only [render, IsLegible, String.toList_append, legible_append, legible_of_isName hname,
      legible_attributesText hnames, legible_renderAll content hcontent, hopen, hclose, hend,
      true_and, and_true]

theorem legible_renderAll : (nodes : List Node) → AllProper nodes →
    (Legible (renderAll nodes).toList ↔ AllLegible nodes)
  | [], _ => iff_of_true nofun trivial
  | node :: rest, h => by
    rw [renderAll, String.toList_append, legible_append, legible_render node h.1,
      legible_renderAll rest h.2, AllLegible]
end

theorem legible_document {root : Node} (h : root.IsProper) :
    Legible (document root).toList ↔ root.IsLegible := by
  have hdeclaration : Legible declaration.toList := by decide +kernel
  rw [document, String.toList_append, legible_append, legible_render root h]
  exact and_iff_right hdeclaration

end Node

end Conformance.Xml
