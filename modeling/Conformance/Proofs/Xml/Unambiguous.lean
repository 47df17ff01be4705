import Conformance.Proofs.Text.Runs
import Conformance.Proofs.Xml.Unescaping

/-!
Trees of elements read back from their documents. A name ends where its letters end, a value at the
next quote and text at the next '<', since escaping leaves neither in them, so a document says which
tags it is made of. Text beside text would run together, so this holds of the trees in which text
stands before, between and after the elements.
-/
namespace Conformance.Xml.Node

open Text

mutual
/-- An element in whose content, all the way down, text and elements alternate. -/
def IsSpaced : Node → Prop
  | text _ => False
  | empty _ _ => True
  | element _ _ content => AllSpaced content

/-- Text before, between and after elements. -/
def AllSpaced : List Node → Prop
  | [text _] => True
  | text _ :: tag :: rest => tag.IsSpaced ∧ AllSpaced rest
  | _ => False
end

/-! ### Tags -/

/-- How a tag may go on after its attributes. -/
def EndsTag (rest : List Char) : Prop := rest.head? = some '>' ∨ " />".toList <+: rest

theorem endsTag_close (rest : List Char) : EndsTag ('>' :: rest) := .inl rfl

theorem endsTag_empty (rest : List Char) : EndsTag (" />".toList ++ rest) :=
  .inr (List.prefix_append _ _)

theorem exists_cons_of_isName {name : List Char} (h : IsName name) :
    ∃ c tail, name = c :: tail ∧ c.isAlpha = true := by
  obtain ⟨c, tail, rfl⟩ := List.exists_cons_of_ne_nil h.1
  exact ⟨c, tail, rfl, h.2 c List.mem_cons_self⟩

/-- An attribute is told from the end of the tag by the letter with which its name begins. -/
theorem not_endsTag_attribute {name : List Char} (h : IsName name) (rest : List Char) :
    ¬ EndsTag (' ' :: name ++ rest) := by
  obtain ⟨c, tail, rfl, hc⟩ := exists_cons_of_isName h
  rintro (hhead | hprefix)
  · cases hhead
  · obtain rfl : '/' = c := (List.cons_prefix_cons.mp (List.cons_prefix_cons.mp hprefix).2).1
    exact absurd hc (by decide)

theorem head?_of_endsTag {rest : List Char} (h : EndsTag rest) :
    ∀ c ∈ rest.head?, c.isAlpha = false := by
  rintro c hc
  rcases h with hhead | ⟨tail, rfl⟩
  · cases hhead.symm.trans hc
    rfl
  · cases hc
    rfl

theorem name_append_inj {name name' rest rest' : List Char} (hname : IsName name)
    (hname' : IsName name') (hrest : ∀ c ∈ rest.head?, c.isAlpha = false)
    (hrest' : ∀ c ∈ rest'.head?, c.isAlpha = false) (h : name ++ rest = name' ++ rest') :
    name = name' ∧ rest = rest' :=
  append_inj_of_runs hname.2 hname'.2 hrest hrest' h

/-- Escaped text ends at the first of the characters that escaping does not leave in it. -/
theorem escapeChars_append_inj {c : Char} (hc : c ∈ delimiters) {cs ds rest rest' : List Char}
    (h : escapeChars cs ++ c :: rest = escapeChars ds ++ c :: rest') : cs = ds ∧ rest = rest' := by
  have hrun (cs : List Char) : ∀ d ∈ escapeChars cs, (d != c) = true := by
    intro d hd
    exact bne_iff_ne.mpr fun hdc => not_mem_escapeChars hc cs (hdc ▸ hd)
  have hend (rest : List Char) : ∀ d ∈ (c :: rest).head?, (d != c) = false := by
    rintro d hd
    cases hd
    exact bne_self_eq_false c
  obtain ⟨htext, hrest⟩ := append_inj_of_runs (hrun cs) (hrun ds) (hend rest) (hend rest') h
  exact ⟨escapeChars_inj htext, (List.cons.inj hrest).2⟩

theorem attributesText_append_inj {as bs : List (String × String)} {X Y : List Char}
    (has : ∀ key ∈ as.map Prod.fst, IsName key.toList)
    (hbs : ∀ key ∈ bs.map Prod.fst, IsName key.toList) (hX : EndsTag X) (hY : EndsTag Y)
    (h : (attributesText as).toList ++ X = (attributesText bs).toList ++ Y) :
    as = bs ∧ X = Y := by
  have hequals (rest : List Char) : ∀ c ∈ ('=' :: rest).head?, c.isAlpha = false := by
    rintro c hc
    cases hc
    rfl
  induction as generalizing bs with
  | nil =>
    cases bs with
    | nil => exact ⟨rfl, h⟩
    | cons b bs =>
      rw [toList_attributesText_cons] at h
      simp only [List.append_assoc] at h
      obtain rfl : X = _ := h
      exact absurd hX (not_endsTag_attribute (List.forall_mem_cons.mp hbs).1 _)
  | cons a as ih =>
    obtain ⟨ha, has⟩ := List.forall_mem_cons.mp has
    rw [toList_attributesText_cons] at h
    cases bs with
    | nil =>
      simp only [List.append_assoc] at h
      obtain rfl : _ = Y := h
      exact absurd hY (not_endsTag_attribute ha _)
    | cons b bs =>
      obtain ⟨hb, hbs⟩ := List.forall_mem_cons.mp hbs
      rw [toList_attributesText_cons] at h
      simp only [List.append_assoc, List.cons_append, List.cons.injEq, true_and] at h
      obtain ⟨hname, h⟩ := name_append_inj ha hb (hequals _) (hequals _) h
      simp only [List.cons.injEq, true_and] at h
      obtain ⟨hvalue, h⟩ := escapeChars_append_inj (by decide) h
      obtain ⟨hattributes, hend⟩ := ih has hbs h
      have hfirst : a = b := Prod.ext (String.toList_inj.mp hname) (String.toList_inj.mp hvalue)
      exact ⟨congrArg₂ List.cons hfirst hattributes, hend⟩

/-- What comes after the name of a tag does not go on with the name. -/
theorem head?_attributesText_append {attributes : List (String × String)} {rest : List Char}
    (h : EndsTag rest) :
    ∀ c ∈ ((attributesText attributes).toList ++ rest).head?, c.isAlpha = false := by
  cases attributes with
  | nil => exact head?_of_endsTag h
  | cons a attributes =>
    rw [toList_attributesText_cons]
    rintro c hc
    cases hc
    rfl

theorem opening_append_inj {name name' : String} {as bs : List (String × String)}
    {X Y : List Char} (h : ProperTag name (as.map Prod.fst))
    (h' : ProperTag name' (bs.map Prod.fst)) (hX : EndsTag X) (hY : EndsTag Y)
    (hsame : name.toList ++ ((attributesText as).toList ++ X) =
      name'.toList ++ ((attributesText bs).toList ++ Y)) : name = name' ∧ as = bs ∧ X = Y := by
  obtain ⟨hname, hrest⟩ := name_append_inj h.1 h'.1 (head?_attributesText_append hX)
    (head?_attributesText_append hY) hsame
  exact ⟨String.toList_inj.mp hname, attributesText_append_inj h.2.1 h'.2.1 hX hY hrest⟩

/-! ### Trees -/

theorem toList_render_empty (name : String) (attributes : List (String × String)) :
    (empty name attributes).render.toList =
      '<' :: (name.toList ++ ((attributesText attributes).toList ++ " />".toList)) := by
  simp [render]

theorem toList_render_element (name : String) (attributes : List (String × String))
    (content : List Node) :
    (element name attributes content).render.toList =
      '<' :: (name.toList ++ ((attributesText attributes).toList ++
        '>' :: ((renderAll content).toList ++ '<' :: '/' :: (name.toList ++ ['>'])))) := by
  simp [render]

/-- An element begins with a '<' and a letter, unlike the end of the one it stands in. -/
theorem exists_render_of_isSpaced {node : Node} (hproper : node.IsProper) (h : node.IsSpaced) :
    ∃ c rest, c.isAlpha = true ∧ node.render.toList = '<' :: c :: rest := by
  cases node with
  | text content => exact h.elim
  | empty name attributes =>
    obtain ⟨c, tail, hname, hc⟩ := exists_cons_of_isName hproper.1
    rw [toList_render_empty, hname]
    exact ⟨c, _, hc, rfl⟩
  | element name attributes content =>
    obtain ⟨c, tail, hname, hc⟩ := exists_cons_of_isName hproper.1.1
    rw [toList_render_element, hname]
    exact ⟨c, _, hc, rfl⟩

theorem toList_renderAll_singleton (content : String) :
    (renderAll [text content]).toList = escapeChars content.toList := by
  simp [renderAll, render, escape]

theorem toList_renderAll_text_cons (content : String) (tag : Node) (rest : List Node) :
    (renderAll (text content :: tag :: rest)).toList =
      escapeChars content.toList ++ (tag.render.toList ++ (renderAll rest).toList) := by
  simp [renderAll, render, escape]

/-- The end of an element is no beginning of one. -/
theorem end_ne_render {tag : Node} (hproper : tag.IsProper) (h : tag.IsSpaced)
    (rest rest' : List Char) : '<' :: '/' :: rest ≠ tag.render.toList ++ rest' := by
  obtain ⟨c, tail, hc, hrender⟩ := exists_render_of_isSpaced hproper h
  rw [hrender]
  intro hsame
  obtain rfl : '/' = c := (List.cons.inj (List.cons.inj hsame).2).1
  exact absurd hc (by decide)

theorem head?_render_append {tag : Node} (hproper : tag.IsProper) (h : tag.IsSpaced)
    (rest : List Char) : (tag.render.toList ++ rest).head? = some '<' := by
  obtain ⟨c, tail, -, hrender⟩ := exists_render_of_isSpaced hproper h
  rw [hrender]
  rfl

/-- Text ends where an element begins or the one it stands in ends. -/
theorem text_append_inj {s t : String} {rest rest' : List Char} (hrest : rest.head? = some '<')
    (hrest' : rest'.head? = some '<')
    (h : escapeChars s.toList ++ rest = escapeChars t.toList ++ rest') : s = t ∧ rest = rest' := by
  obtain ⟨X, rfl⟩ := List.head?_eq_some_iff.mp hrest
  obtain ⟨Y, rfl⟩ := List.head?_eq_some_iff.mp hrest'
  obtain ⟨htext, rfl⟩ := escapeChars_append_inj (by decide) h
  exact ⟨String.toList_inj.mp htext, rfl⟩

theorem exists_text_of_allSpaced {node : Node} {rest : List Node} (h : AllSpaced (node :: rest)) :
    ∃ s, node = text s := by
  cases node with
  | text s => exact ⟨s, rfl⟩
  | empty name attributes => exact h.elim
  | element name attributes content => exact h.elim

theorem allSpaced_cases {nodes : List Node} (h : AllSpaced nodes) :
    (∃ s, nodes = [text s]) ∨
      ∃ s tag rest, nodes = text s :: tag :: rest ∧ tag.IsSpaced ∧ AllSpaced rest := by
  unfold AllSpaced at h
  split at h
  · exact .inl ⟨_, rfl⟩
  · exact .inr ⟨_, _, _, rfl, h⟩
  · exact h.elim

/-- Content that is one text is told from content with an element in it. -/
theorem text_end_ne {s t : String} {tag : Node} (hproper : tag.IsProper) (h : tag.IsSpaced)
    (X rest : List Char) : escapeChars s.toList ++ '<' :: '/' :: X ≠
      escapeChars t.toList ++ (tag.render.toList ++ rest) := by
  intro hsame
  obtain ⟨-, hend⟩ := text_append_inj rfl (head?_render_append hproper h rest) hsame
  exact end_ne_render hproper h X rest hend

-- The induction is over the first tree. The rests are arbitrary, since what is behind an element is
-- the remaining content of the one it stands in.
mutual
theorem render_append_inj {X Y : List Char} : (n m : Node) → n.IsProper → n.IsSpaced →
    m.IsProper → m.IsSpaced → n.render.toList ++ X = m.render.toList ++ Y → n = m ∧ X = Y
  | text s, m, _, hn, _, _, _ => hn.elim
  | empty name as, m, hn, _, hm, hm', h => by
    cases m with
    | text t => exact hm'.elim
    | empty name' bs =>
      simp only [toList_render_empty, List.cons_append, List.append_assoc, List.cons.injEq,
        true_and] at h
      obtain ⟨rfl, rfl, hrest⟩ := opening_append_inj hn hm (endsTag_empty X) (endsTag_empty Y) h
      exact ⟨rfl, List.append_cancel_left hrest⟩
    | element name' bs content =>
      simp only [toList_render_empty, toList_render_element, List.cons_append, List.append_assoc,
        List.cons.injEq, true_and] at h
      obtain ⟨-, -, hrest⟩ := opening_append_inj hn hm.1 (endsTag_empty X) (endsTag_close _) h
      cases hrest
  | element name as content, m, hn, hn', hm, hm', h => by
    cases m with
    | text t => exact hm'.elim
    | empty name' bs =>
      simp only [toList_render_empty, toList_render_element, List.cons_append, List.append_assoc,
        List.cons.injEq, true_and] at h
      obtain ⟨-, -, hrest⟩ := opening_append_inj hn.1 hm (endsTag_close _) (endsTag_empty Y) h
      cases hrest
    | element name' bs content' =>
      simp only [toList_render_element, List.cons_append, List.append_assoc, List.nil_append,
        List.cons.injEq, true_and] at h
      obtain ⟨rfl, rfl, hrest⟩ :=
        opening_append_inj hn.1 hm.1 (endsTag_close _) (endsTag_close _) h
      obtain ⟨rfl, hend⟩ :=
        renderAll_append_inj content content' hn.2 hn' hm.2 hm' (List.cons.inj hrest).2
      exact ⟨rfl, (List.cons.inj (List.append_cancel_left hend)).2⟩

theorem renderAll_append_inj {X Y : List Char} : (ns ms : List Node) → AllProper ns →
    AllSpaced ns → AllProper ms → AllSpaced ms →
    (renderAll ns).toList ++ '<' :: '/' :: X = (renderAll ms).toList ++ '<' :: '/' :: Y →
    ns = ms ∧ X = Y
  | [], _, _, hn, _, _, _ => hn.elim
  | [node], ms, _, hn, hm, hm', h => by
    obtain ⟨s, rfl⟩ := exists_text_of_allSpaced hn
    rw [toList_renderAll_singleton] at h
    rcases allSpaced_cases hm' with ⟨t, rfl⟩ | ⟨t, tag, rest, rfl, htag, -⟩
    · rw [toList_renderAll_singleton] at h
      obtain ⟨rfl, hend⟩ := text_append_inj rfl rfl h
      exact ⟨rfl, (List.cons.inj (List.cons.inj hend).2).2⟩
    · rw [toList_renderAll_text_cons, List.append_assoc, List.append_assoc] at h
      exact absurd h (text_end_ne hm.2.1 htag _ _)
  | node :: tag :: rest, ms, hn, hn', hm, hm', h => by
    obtain ⟨s, rfl⟩ := exists_text_of_allSpaced hn'
    rw [toList_renderAll_text_cons, List.append_assoc, List.append_assoc] at h
    rcases allSpaced_cases hm' with ⟨t, rfl⟩ | ⟨t, tag', rest', rfl, htag', hrest'⟩
    · rw [toList_renderAll_singleton] at h
      exact absurd h.symm (text_end_ne hn.2.1 hn'.1 _ _)
    · rw [toList_renderAll_text_cons, List.append_assoc, List.append_assoc] at h
      obtain ⟨rfl, htags⟩ := text_append_inj (head?_render_append hn.2.1 hn'.1 _)
        (head?_render_append hm.2.1 htag' _) h
      obtain ⟨rfl, hrest⟩ := render_append_inj tag tag' hn.2.1 hn'.1 hm.2.1 htag' htags
      obtain ⟨rfl, hend⟩ := renderAll_append_inj rest rest' hn.2.2 hn'.2 hm.2.2 hrest' hrest
      exact ⟨rfl, hend⟩
end

/-- Two documents of the one text are of one tree. -/
theorem document_inj {root root' : Node} (hproper : root.IsProper) (h : root.IsSpaced)
    (hproper' : root'.IsProper) (h' : root'.IsSpaced) (hsame : document root = document root') :
    root = root' := by
  have hrender : root.render.toList ++ [] = root'.render.toList ++ [] := by
    have := congrArg String.toList hsame
    simpa [document] using this
  exact (render_append_inj root root' hproper h hproper' h' hrender).1

end Conformance.Xml.Node
