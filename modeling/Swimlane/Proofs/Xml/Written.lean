/-
  Swimlane — the text of an element can be read.

  * `Element.tree`: the tree of an element.
  * `Element.Uses vocabulary e`: all names in the element are from the
    vocabulary, and attributes of one tag have different names.
  * `spells_escape`: an escaped text is read as the text.
  * `Loose ts cs`: the characters stand for the trees, also after white space;
    `Element.Uses.loose`: so do the lines of an element.
  * `isDocument_documentText`: the text of an element is a document with its tree.
-/
import Swimlane.Proofs.Xml.Unambiguous

namespace Swimlane.Xml

/-! ## Trees of elements -/

mutual

/-- The tree of an element. -/
def Element.tree : Element → Tree
  | .leaf tag attributes => .node tag attributes []
  | .text tag content => .node tag [] (textTrees content)
  | .block tag attributes children => .node tag attributes (treesOf children)

/-- The trees of elements. -/
def treesOf : List Element → List Tree
  | [] => []
  | e :: es => e.tree :: treesOf es

end

theorem treesOf_eq_map (es : List Element) : treesOf es = es.map Element.tree := by
  induction es with
  | nil => rfl
  | cons e es ih => rw [treesOf, ih, List.map_cons]

@[simp] theorem tree_leaf (tag : String) (attributes : List Attribute) :
    (Element.leaf tag attributes).tree = .node tag attributes [] := by
  rw [Element.tree]

@[simp] theorem tree_text (tag content : String) :
    (Element.text tag content).tree = .node tag [] (textTrees content) := by
  rw [Element.tree]

@[simp] theorem tree_block (tag : String) (attributes : List Attribute) (children : List Element) :
    (Element.block tag attributes children).tree =
      .node tag attributes (children.map Element.tree) := by
  rw [Element.tree, treesOf_eq_map]

theorem namesOf_eq_flatMap (ts : List Tree) : namesOf ts = ts.flatMap Tree.names := by
  induction ts with
  | nil => rfl
  | cons t ts ih => rw [namesOf, ih, List.flatMap_cons]

/-! ## Vocabularies -/

/-- The names of a tag are from the vocabulary, those of its attributes differ. -/
structure Proper (vocabulary : List String) (tag : String) (names : List String) : Prop where
  tag_mem : tag ∈ vocabulary
  names_mem : ∀ name ∈ names, name ∈ vocabulary
  distinct : names.Nodup

theorem proper_iff {vocabulary : List String} {tag : String} {names : List String} :
    Proper vocabulary tag names ↔
      tag ∈ vocabulary ∧ (∀ name ∈ names, name ∈ vocabulary) ∧ names.Nodup :=
  ⟨fun h => ⟨h.tag_mem, h.names_mem, h.distinct⟩, fun ⟨htag, hnames, h⟩ => ⟨htag, hnames, h⟩⟩

instance (vocabulary : List String) (tag : String) (names : List String) :
    Decidable (Proper vocabulary tag names) := decidable_of_iff' _ proper_iff

/-- All tags of the element are proper. -/
inductive Element.Uses (vocabulary : List String) : Element → Prop
  | leaf {tag : String} {attributes : List Attribute}
      (proper : Proper vocabulary tag (attributes.map Prod.fst)) :
      Element.Uses vocabulary (.leaf tag attributes)
  | text {tag content : String} (proper : Proper vocabulary tag []) :
      Element.Uses vocabulary (.text tag content)
  | block {tag : String} {attributes : List Attribute} {children : List Element}
      (proper : Proper vocabulary tag (attributes.map Prod.fst))
      (inside : ∀ e ∈ children, e.Uses vocabulary) :
      Element.Uses vocabulary (.block tag attributes children)

section
variable {vocabulary : List String} {e : Element}

/-- The names in the tree of an element are from the vocabulary. -/
theorem Element.Uses.names_mem (h : e.Uses vocabulary) : ∀ name ∈ e.tree.names, name ∈ vocabulary := by
  induction h with
  | leaf proper =>
    simp only [tree_leaf, Tree.names, namesOf, List.append_nil]
    exact List.forall_mem_cons.2 ⟨proper.tag_mem, proper.names_mem⟩
  | @text tag content proper =>
    have hnames : namesOf (textTrees content) = [] := by
      unfold textTrees
      split <;> rfl
    simp only [tree_text, Tree.names, hnames, List.append_nil, List.map_nil]
    exact List.forall_mem_cons.2 ⟨proper.tag_mem, proper.names_mem⟩
  | block proper inside ih =>
    simp only [tree_block, Tree.names, namesOf_eq_flatMap]
    refine List.forall_mem_cons.2 ⟨proper.tag_mem, fun name hname => ?_⟩
    rcases List.mem_append.1 hname with hname | hname
    · exact proper.names_mem name hname
    · simp only [List.mem_flatMap, List.mem_map] at hname
      obtain ⟨t, ⟨e, he, rfl⟩, hname⟩ := hname
      exact ih e he name hname

end

/-! ## Texts -/

/-- Five characters are called by their names, the others stand for themselves. -/
theorem escapeChar_cases (c : Char) :
    (∃ name, (c, name) ∈ entities ∧ escapeChar c = '&' :: (name ++ [';'])) ∨
      escapeChar c = [c] ∧ c ≠ '&' ∧ c ≠ '<' ∧ c ≠ '"' := by
  have hknown : ∀ e ∈ entities, escapeChar e.1 = '&' :: (e.2 ++ [';']) := by decide
  by_cases hc : c ∈ entities.map Prod.fst
  · obtain ⟨e, he, rfl⟩ := List.mem_map.1 hc
    exact Or.inl ⟨e.2, he, hknown e he⟩
  · simp only [entities, List.map_cons, List.map_nil, List.mem_cons, List.not_mem_nil, or_false,
      not_or] at hc
    obtain ⟨hamp, hlt, hgt, hquote, hapos⟩ := hc
    exact Or.inr ⟨by simp [escapeChar, *], hamp, hlt, hquote⟩

/-- **An escaped text is read as the text.** -/
theorem spells_escape {stop : Char} (hstop : stop = '<' ∨ stop = '"') (s : List Char) :
    Spells stop s (escape s) := by
  induction s with
  | nil => exact .nil
  | cons c s ih =>
    rw [escape_eq_flatMap, List.flatMap_cons, ← escape_eq_flatMap]
    rcases escapeChar_cases c with ⟨name, hname, heq⟩ | ⟨heq, hamp, hlt, hquote⟩
    · rw [heq, List.cons_append, List.append_assoc]
      exact .entity hname ih
    · rw [heq]
      refine .plain hlt hamp ?_ ih
      rintro rfl
      exact hstop.elim hlt hquote

/-- No text that is escaped holds the sign that closes a section. -/
theorem noClose_escape (s : List Char) : ¬ [']', ']', '>'] <:+: escape s := by
  intro h
  have hmem : '>' ∈ escape s := h.subset (by decide)
  have hdelimiter := mem_escape hmem
  cases hdelimiter

theorem spells_white {w : List Char} (h : White w) : Spells '<' w w := by
  induction w with
  | nil => exact .nil
  | cons c w ih =>
    obtain ⟨hc, hw⟩ := List.forall_mem_cons.1 h
    have hne : c ≠ '<' ∧ c ≠ '&' := by
      constructor <;> rintro rfl <;> cases hc
    exact .plain hne.1 hne.2 hne.1 (ih hw)

theorem content_escape (s : String) : Content (textTrees s) (escape s.toList) := by
  by_cases hempty : escape s.toList = []
  · have hspells : Spells '<' s.toList [] := hempty ▸ spells_escape (Or.inl rfl) s.toList
    have hnil : s.toList = [] := hspells.unique .nil
    have hwhite : White s.toList := by simp [hnil, White]
    rw [hempty, textTrees, if_pos hwhite]
    exact .nil
  · have hrun := Content.run (spells_escape (Or.inl rfl) s.toList) hempty (noClose_escape _)
      (fun c hc => by cases hc) .nil
    simpa using hrun

/-- White space before a tag stands for nothing. -/
theorem Content.white {ts : List Tree} {w cs : List Char} (h : Content ts cs) (hw : White w)
    (htag : AtTag cs) : Content ts (w ++ cs) := by
  by_cases hempty : w = []
  · rwa [hempty]
  · have hnoClose : ¬ [']', ']', '>'] <:+: w := by
      intro hinside
      have hspace := hw '>' (hinside.subset (by decide))
      cases hspace
    have hspells : Spells '<' (String.ofList w).toList w := by
      rw [String.toList_ofList]
      exact spells_white hw
    have hrun := Content.run hspells hempty hnoClose htag h
    rwa [textTrees, String.toList_ofList, if_pos hw] at hrun

/-! ## Lines -/

/-- The characters stand for the trees, also after white space. -/
def Loose (ts : List Tree) (cs : List Char) : Prop := ∀ w, White w → Content ts (w ++ cs)

theorem White.append {v w : List Char} (hv : White v) (hw : White w) : White (v ++ w) := by
  intro c hc
  rcases List.mem_append.1 hc with hc | hc
  · exact hv c hc
  · exact hw c hc

theorem white_indentation (level : ℕ) : White (indentation level) := by
  intro c hc
  rw [List.eq_of_mem_replicate hc]
  rfl

theorem Loose.white {ts : List Tree} {cs v : List Char} (h : Loose ts cs) (hv : White v) :
    Loose ts (v ++ cs) := by
  intro w hw
  rw [← List.append_assoc]
  exact h _ (hw.append hv)

theorem loose_nil : Loose [] [] := fun w hw => Content.nil.white hw fun c hc => by cases hc

theorem Content.loose {ts : List Tree} {cs : List Char} (h : Content ts ('<' :: cs)) :
    Loose ts ('<' :: cs) := fun w hw => h.white hw fun c hc => by simpa using hc.symm

section
variable {vocabulary : List String} {tag : String} {attributes : List Attribute}
  {gap : List Char}

/-- The attributes of a tag are read as they are. -/
theorem attributes_attributesChars (hnames : ∀ a ∈ attributes, isName a.1.toList = true) :
    Attributes attributes (attributesChars attributes) := by
  induction attributes with
  | nil => exact .nil
  | cons a attributes ih =>
    obtain ⟨ha, has⟩ := List.forall_mem_cons.1 hnames
    have hcons : Attributes (a :: attributes) ([' '] ++ (a.1.toList ++ ([] ++ '=' :: ([] ++ '"' ::
        (escape a.2.toList ++ '"' :: attributesChars attributes))))) :=
      .cons (by decide) (by decide) ha (by decide) (by decide) (spells_escape (Or.inr rfl) _) (ih has)
    simpa [attributesChars, attributeChars] using hcons

theorem Proper.inscription (h : Proper vocabulary tag (attributes.map Prod.fst))
    (hvocabulary : ∀ name ∈ vocabulary, isName name.toList = true) (hgap : White gap) :
    Inscription tag attributes (tag.toList ++ (attributesChars attributes ++ gap)) := by
  refine .intro (hvocabulary _ h.tag_mem) (attributes_attributesChars fun a ha => ?_) h.distinct hgap
  exact hvocabulary _ (h.names_mem _ (List.mem_map_of_mem ha))

variable {e : Element} {es : List Element} {ts : List Tree} {cs : List Char}

/-- What holds of the lines of each element holds of the lines of all. -/
theorem loose_elementsChars {level : ℕ} (h : Loose ts cs)
    (hes : ∀ e ∈ es, ∀ {ts cs}, Loose ts cs → Loose (e.tree :: ts) (e.chars level ++ cs)) :
    Loose (es.map Element.tree ++ ts) (elementsChars level es ++ cs) := by
  induction es with
  | nil => simpa [elementsChars] using h
  | cons e es ih =>
    obtain ⟨he, hes⟩ := List.forall_mem_cons.1 hes
    rw [elementsChars, List.map_cons, List.append_assoc]
    exact he (ih hes)

/-- **The lines of an element are read as its tree.** -/
theorem Element.Uses.loose (h : e.Uses vocabulary)
    (hvocabulary : ∀ name ∈ vocabulary, isName name.toList = true) (level : ℕ) (hrest : Loose ts cs) :
    Loose (e.tree :: ts) (e.chars level ++ cs) := by
  have hnewline : White ['\n'] := by decide
  induction h generalizing level ts cs with
  | leaf proper =>
    have hempty := Content.empty (proper.inscription hvocabulary (by decide : White [' ']))
      (hrest ['\n'] hnewline)
    have hloose := hempty.loose.white (white_indentation level)
    simpa [Element.chars] using hloose
  | @text tag content proper =>
    have hinscription : Inscription tag [] (tag.toList ++ (attributesChars [] ++ [])) :=
      Proper.inscription proper hvocabulary (by decide)
    have helement := Content.element hinscription (content_escape content) (by decide : White [])
      (hrest ['\n'] hnewline)
    have hloose := helement.loose.white (white_indentation level)
    simpa [Element.chars, attributesChars, endTag] using hloose
  | @block tag attributes children proper inside ih =>
    have hchildren := loose_elementsChars (loose_nil.white (white_indentation level))
      (fun e he {ts cs} => ih e he (level + 1)) ['\n'] hnewline
    have helement := Content.element (proper.inscription hvocabulary (by decide : White []))
      hchildren (by decide : White []) (hrest ['\n'] hnewline)
    have hloose := helement.loose.white (white_indentation level)
    simpa [Element.chars, endTag] using hloose

end

/-! ## Documents -/

theorem declaration_eq : declaration.toList =
    "<?xml".toList ++ (attributesChars versions ++ ([] ++ "?>".toList)) ++ ['\n'] := by
  decide

/-- **The text of an element is a document with its tree.** -/
theorem isDocument_documentText {vocabulary : List String} {tag : String}
    {attributes : List Attribute} {children : List Element}
    (h : (Element.block tag attributes children).Uses vocabulary)
    (hnames : ∀ name ∈ vocabulary, isName name.toList = true)
    (hdeclares : ∀ name ∈ vocabulary, declares (attributes.map Prod.fst) name = true) :
    IsDocument (Element.block tag attributes children).tree
      (documentText (.block tag attributes children)) := by
  have hversions : Attributes versions (attributesChars versions) :=
    attributes_attributesChars (by decide)
  have hopens := Declaration.intro (by decide : White []) hversions
  have hrooted := h.loose hnames 0 loose_nil ['\n'] (by decide)
  have hdeclared : Declared (Element.block tag attributes children).tree := by
    rw [tree_block]
    intro name hname
    rw [← tree_block] at hname
    exact hdeclares name (h.names_mem name hname)
  have htext : documentText (.block tag attributes children) = String.ofList
      (("<?xml".toList ++ (attributesChars versions ++ ([] ++ "?>".toList))) ++
        (['\n'] ++ ((Element.block tag attributes children).chars 0 ++ []))) := by
    apply String.toList_injective
    simp [documentText, declaration_eq]
  rw [htext]
  exact .intro hopens hrooted hdeclared

end Swimlane.Xml
