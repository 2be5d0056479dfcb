/-
  Swimlane — the characters of documents.

  A document may hold most characters, but neither control characters, except
  three that are white space, nor the last two of the basic plane.  These have no
  name either, so that they cannot be escaped.

  * `Legible cs`: a document may hold all of the characters.
  * `legible_escape`: an escaped text is legible exactly if the text is.
  * `LegibleBut names t`: what stands in a tag is legible, apart from attributes
    with certain names.
  * `Element.Uses.legible_iff`: the lines of an element are legible exactly if its
    values are, those with certain names and the others.
-/
import Swimlane.Proofs.Xml.View

namespace Swimlane.Xml

/-! ## Characters -/

/-- The characters that a document may hold, as ranges. -/
def charRanges : List (ℕ × ℕ) :=
  [(0x9, 0x9), (0xA, 0xA), (0xD, 0xD), (0x20, 0xD7FF), (0xE000, 0xFFFD), (0x10000, 0x10FFFF)]

def isXmlChar (c : Char) : Bool := inRanges charRanges c

/-- A document may hold the characters. -/
def Legible (cs : List Char) : Prop := ∀ c ∈ cs, isXmlChar c = true

instance (cs : List Char) : Decidable (Legible cs) := List.decidableBAll _ cs

section
variable {c : Char} {cs ds : List Char}

@[simp] theorem legible_nil : Legible [] := fun _ hc => by cases hc

@[simp] theorem legible_cons : Legible (c :: cs) ↔ isXmlChar c = true ∧ Legible cs :=
  List.forall_mem_cons

@[simp] theorem legible_append : Legible (cs ++ ds) ↔ Legible cs ∧ Legible ds :=
  List.forall_mem_append

theorem legible_flatMap {α : Type} {f : α → List Char} {as : List α} :
    Legible (as.flatMap f) ↔ ∀ a ∈ as, Legible (f a) := by
  simp only [Legible, List.mem_flatMap]
  exact ⟨fun h a ha c hc => h c ⟨a, ha, hc⟩, fun h c ⟨a, ha, hc⟩ => h a ha c hc⟩

/-- A character of ranges that lie within others is in those. -/
theorem inRanges_of_within {inner outer : List (ℕ × ℕ)}
    (h : ∀ r ∈ inner, ∃ s ∈ outer, s.1 ≤ r.1 ∧ r.2 ≤ s.2) (hc : inRanges inner c = true) :
    inRanges outer c = true := by
  simp only [inRanges, List.any_eq_true, Bool.and_eq_true, decide_eq_true_eq] at hc ⊢
  obtain ⟨r, hr, hlow, hhigh⟩ := hc
  obtain ⟨s, hs, hslow, hshigh⟩ := h r hr
  exact ⟨s, hs, Nat.le_trans hslow hlow, Nat.le_trans hhigh hshigh⟩

/-- White space is legible. -/
theorem White.legible (h : White cs) : Legible cs := by
  intro c hc
  have hspace := h c hc
  simp only [isSpace, Bool.or_eq_true, decide_eq_true_eq] at hspace
  rcases hspace with ((rfl | rfl) | rfl) | rfl <;> decide

/-- Names are legible. -/
theorem legible_of_isName (h : isName cs = true) : Legible cs := by
  intro c hc
  have hname := isNameChar_of_mem_isName h c hc
  rw [isNameChar, Bool.or_eq_true] at hname
  rcases hname with hname | hname
  · exact inRanges_of_within (by decide) hname
  · exact inRanges_of_within (by decide) hname

/-! ## Escaped texts -/

theorem legible_escapeChar : Legible (escapeChar c) ↔ isXmlChar c = true := by
  rcases escapeChar_cases c with ⟨name, hname, heq⟩ | ⟨heq, -⟩
  · have hentities : ∀ e ∈ entities, isXmlChar e.1 = true ∧ Legible e.2 := by decide
    obtain ⟨hc, hlegible⟩ := hentities _ hname
    rw [heq, hc]
    simpa [hlegible] using by decide
  · rw [heq]
    simp

/-- **An escaped text is legible** exactly if the text is. -/
theorem legible_escape : Legible (escape cs) ↔ Legible cs := by
  rw [escape_eq_flatMap, legible_flatMap]
  exact forall₂_congr fun c _ => legible_escapeChar

end

/-! ## Trees -/

/-- What stands in a tag is legible, apart from attributes with these names, and so
    is the text right after it. -/
structure LegibleBut (names : List String) (t : Tree) : Prop where
  attributes : ∀ a ∈ t.attributes, a.1 ∉ names → Legible a.2.toList
  content : Legible t.content.toList

namespace Element

section
variable {names : List String} {tag content : String} {attributes : List Attribute}
  {es : List Element} {e : Element}

theorem all_leaf_iff {P : Tree → Prop} :
    (leaf tag attributes).All P ↔ P (leaf tag attributes).tree := by
  simp [All]

theorem all_text_iff {P : Tree → Prop} :
    (text tag content).All P ↔ P (text tag content).tree := by
  simp [All]

theorem all_block_iff {P : Tree → Prop} :
    (block tag attributes es).All P ↔ P (block tag attributes es).tree ∧ ∀ e ∈ es, e.All P := by
  constructor
  · intro h
    refine ⟨h _ (by simp), fun e he t ht => h t ?_⟩
    rw [tree_block, Tree.elements_node, List.flatMap_map]
    exact List.mem_cons_of_mem _ (List.mem_flatMap.2 ⟨e, he, ht⟩)
  · rintro ⟨h, hes⟩
    exact all_block h hes

/-- The elements right inside an element are no text. -/
theorem content_block : (block tag attributes es).tree.content = "" := by
  rw [tree_block, Tree.content, Tree.children]
  cases es with
  | nil => rfl
  | cons e es => cases e <;> simp

theorem legible_content_text :
    Legible (text tag content).tree.content.toList ↔ Legible content.toList := by
  rw [tree_text, textTrees]
  split
  · rename_i hwhite
    simp [Tree.content, Tree.children, hwhite.legible]
  · rfl

theorem legibleBut_leaf : LegibleBut names (leaf tag attributes).tree ↔
    ∀ a ∈ attributes, a.1 ∉ names → Legible a.2.toList := by
  rw [tree_leaf]
  exact ⟨fun h => h.attributes, fun h => ⟨h, legible_nil⟩⟩

theorem legibleBut_text :
    LegibleBut names (text tag content).tree ↔ Legible content.toList := by
  rw [← @legible_content_text tag]
  refine ⟨fun h => h.content, fun h => ⟨?_, h⟩⟩
  rw [tree_text]
  exact fun a ha => by cases ha

theorem legibleBut_block : LegibleBut names (block tag attributes es).tree ↔
    ∀ a ∈ attributes, a.1 ∉ names → Legible a.2.toList := by
  constructor
  · intro h a ha
    refine h.attributes a ?_
    rw [tree_block]
    exact ha
  · intro h
    refine ⟨?_, ?_⟩
    · rw [tree_block]
      exact h
    · rw [content_block]
      exact legible_nil

/-- All values are legible exactly if those with certain names are, and the
    others. -/
theorem all_legibleBut_nil : e.All (LegibleBut []) ↔
    e.All (LegibleBut names) ∧ ∀ a ∈ e.marked names, Legible a.2.toList := by
  simp only [All, marked, Tree.marked, List.mem_flatMap, named, List.mem_filter,
    List.contains_eq_mem, decide_eq_true_eq]
  constructor
  · intro h
    have hvalues : ∀ t ∈ e.tree.elements, ∀ a ∈ t.attributes, Legible a.2.toList :=
      fun t ht a ha => (h t ht).attributes a ha List.not_mem_nil
    refine ⟨fun t ht => ⟨fun a ha _ => hvalues t ht a ha, (h t ht).content⟩, ?_⟩
    rintro a ⟨t, ht, ha, -⟩
    exact hvalues t ht a ha
  · rintro ⟨hothers, hnamed⟩ t ht
    refine ⟨fun a ha _ => ?_, (hothers t ht).content⟩
    by_cases hname : a.1 ∈ names
    · exact hnamed a ⟨t, ht, ha, hname⟩
    · exact (hothers t ht).attributes a ha hname

end

/-! ## Lines -/

section
variable {vocabulary : List String} {e : Element}

theorem legible_attributesChars {attributes : List Attribute}
    (hnames : ∀ a ∈ attributes, isName a.1.toList = true) :
    Legible (attributesChars attributes) ↔ ∀ a ∈ attributes, Legible a.2.toList := by
  rw [attributesChars, legible_flatMap]
  refine forall₂_congr fun a ha => ?_
  have hname := legible_of_isName (hnames a ha)
  have hmarks : Legible [' '] ∧ Legible ['=', '"'] ∧ Legible ['"'] := by decide
  simp_all [attributeChars, legible_escape]

theorem legible_elementsChars {level : ℕ} {es : List Element} :
    Legible (elementsChars level es) ↔ ∀ e ∈ es, Legible (e.chars level) := by
  induction es with
  | nil => simp [elementsChars]
  | cons e es ih => rw [elementsChars, legible_append, ih, List.forall_mem_cons]

/-- The lines of an element are legible exactly if its values are. -/
theorem Uses.legible (h : e.Uses vocabulary)
    (hvocabulary : ∀ name ∈ vocabulary, isName name.toList = true) (level : ℕ) :
    Legible (e.chars level) ↔ e.All (LegibleBut []) := by
  have hindentation : ∀ level, Legible (indentation level) :=
    fun level => (white_indentation level).legible
  have hname : ∀ {tag names}, Proper vocabulary tag names →
      Legible tag.toList ∧ ∀ name ∈ names, isName name.toList = true := fun proper =>
    ⟨legible_of_isName (hvocabulary _ proper.tag_mem),
      fun name hname => hvocabulary name (proper.names_mem name hname)⟩
  have hmarks : Legible ['<', '/', '>', ' ', '\n'] := by decide
  simp only [legible_cons, legible_nil, and_true] at hmarks
  induction h generalizing level with
  | leaf proper =>
    obtain ⟨htag, hnames⟩ := hname proper
    rw [List.forall_mem_map] at hnames
    rw [all_leaf_iff, legibleBut_leaf, Element.chars]
    simp [*, legible_attributesChars hnames]
  | text proper =>
    obtain ⟨htag, -⟩ := hname proper
    rw [all_text_iff, legibleBut_text, Element.chars]
    simp [*, endTag, legible_escape]
  | block proper inside ih =>
    obtain ⟨htag, hnames⟩ := hname proper
    rw [List.forall_mem_map] at hnames
    have hchildren := legible_elementsChars.trans (forall₂_congr fun e he => ih e he (level + 1))
    rw [all_block_iff, legibleBut_block, Element.chars]
    simp [*, endTag, legible_attributesChars hnames]

/-- **The text of an element is legible** exactly if its values are: those with
    certain names, and the others. -/
theorem Uses.legible_iff (h : e.Uses vocabulary)
    (hvocabulary : ∀ name ∈ vocabulary, isName name.toList = true) (names : List String) :
    Legible (documentText e).toList ↔
      e.All (LegibleBut names) ∧ ∀ a ∈ e.marked names, Legible a.2.toList := by
  have hopening : Legible declaration.toList := by decide
  rw [← all_legibleBut_nil, ← h.legible hvocabulary 0, documentText, String.toList_append,
    String.toList_ofList, legible_append, and_iff_right hopening]

end

end Element

end Swimlane.Xml
