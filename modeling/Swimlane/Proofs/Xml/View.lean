/-
  Swimlane — views of XML trees.

  * `Tree.elements`: the elements of a tree, in the order of their start tags.
  * `Tree.marked names t`: the attributes with certain names, in the same order.
  * `Tree.blank names t`: the tree with empty texts in these attributes.
  * `Element.All P e`: all elements in the tree of an element have the property.
-/
import Swimlane.Proofs.Xml.Written

namespace Swimlane.Xml

/-- The attributes with these names. -/
def named (names : List String) (attributes : List Attribute) : List Attribute :=
  attributes.filter fun a => names.contains a.1

@[simp] theorem named_nil (names : List String) : named names [] = [] := rfl

theorem named_append (names : List String) (as bs : List Attribute) :
    named names (as ++ bs) = named names as ++ named names bs := List.filter_append ..

/-- The attribute, empty if it has one of these names. -/
def blankAttribute (names : List String) (a : Attribute) : Attribute :=
  if names.contains a.1 then (a.1, "") else a

namespace Tree

def tag : Tree → String
  | .text _ => ""
  | .node tag _ _ => tag

def attributes : Tree → List Attribute
  | .text _ => []
  | .node _ attributes _ => attributes

def children : Tree → List Tree
  | .text _ => []
  | .node _ _ children => children

/-- The text of an attribute. -/
def attribute? (name : String) (t : Tree) : Option String := t.attributes.lookup name

/-- The text between the tags of an element, if there is nothing else. -/
def content (t : Tree) : String :=
  match t.children with
  | [.text content] => content
  | _ => ""

mutual

/-- The elements of a tree: itself and those inside it. -/
def elements : Tree → List Tree
  | .text _ => []
  | .node tag attributes children => .node tag attributes children :: elementsOf children

/-- The elements of trees. -/
def elementsOf : List Tree → List Tree
  | [] => []
  | t :: ts => t.elements ++ elementsOf ts

end

/-- The attributes of a tree that have one of these names. -/
def marked (names : List String) (t : Tree) : List Attribute :=
  t.elements.flatMap fun e => named names e.attributes

mutual

/-- The tree with empty texts in the attributes with these names. -/
def blank (names : List String) : Tree → Tree
  | .text content => .text content
  | .node tag attributes children =>
    .node tag (attributes.map (blankAttribute names)) (blankAll names children)

/-- The trees with empty texts in the attributes with these names. -/
def blankAll (names : List String) : List Tree → List Tree
  | [] => []
  | t :: ts => t.blank names :: blankAll names ts

end

/-! ## Small facts -/

section
variable {names : List String} (tag content : String) (attributes : List Attribute)
  (ts : List Tree)

theorem elementsOf_eq_flatMap : elementsOf ts = ts.flatMap elements := by
  induction ts with
  | nil => rfl
  | cons t ts ih => rw [elementsOf, ih, List.flatMap_cons]

theorem blankAll_eq_map : blankAll names ts = ts.map (blank names) := by
  induction ts with
  | nil => rfl
  | cons t ts ih => rw [blankAll, ih, List.map_cons]

@[simp] theorem elements_node :
    (node tag attributes ts).elements = node tag attributes ts :: ts.flatMap elements := by
  rw [elements, elementsOf_eq_flatMap]

@[simp] theorem marked_node : (node tag attributes ts).marked names =
    named names attributes ++ ts.flatMap (marked names) := by
  rw [marked, elements_node, List.flatMap_cons, List.flatMap_assoc]
  rfl

@[simp] theorem blank_node : (node tag attributes ts).blank names =
    .node tag (attributes.map (blankAttribute names)) (ts.map (blank names)) := by
  rw [blank, blankAll_eq_map]

/-- A text has no elements. -/
@[simp] theorem elements_textTrees : (textTrees content).flatMap elements = [] := by
  unfold textTrees
  split <;> rfl

@[simp] theorem marked_textTrees : (textTrees content).flatMap (marked names) = [] := by
  unfold textTrees
  split <;> rfl

end

end Tree

/-! ## Elements -/

namespace Element

/-- The name of the tag. -/
def tag : Element → String
  | leaf tag _ => tag
  | text tag _ => tag
  | block tag _ _ => tag

@[simp] theorem tag_tree (e : Element) : e.tree.tag = e.tag := by
  cases e <;> simp [Tree.tag, tag]

/-- The attributes of an element that have one of these names. -/
def marked (names : List String) (e : Element) : List Attribute := e.tree.marked names

/-- The tree of an element with empty texts in the attributes with these names. -/
def blank (names : List String) (e : Element) : Tree := e.tree.blank names

section
variable {names : List String} (tag content : String) (attributes : List Attribute)
  (es : List Element)

@[simp] theorem marked_leaf : (leaf tag attributes).marked names = named names attributes := by
  simp [marked]

@[simp] theorem marked_text : (text tag content).marked names = [] := by
  simp [marked]

@[simp] theorem marked_texts {β : Type} (content : β → String) (bs : List β) :
    (bs.map fun b => text tag (content b)).flatMap (marked names) = [] := by
  simp [List.flatMap_map]

@[simp] theorem marked_block : (block tag attributes es).marked names =
    named names attributes ++ es.flatMap (marked names) := by
  rw [marked, tree_block, Tree.marked_node, List.flatMap_map]
  rfl

@[simp] theorem blank_leaf : (leaf tag attributes).blank names =
    .node tag (attributes.map (blankAttribute names)) [] := by
  simp [blank]

@[simp] theorem blank_block : (block tag attributes es).blank names =
    .node tag (attributes.map (blankAttribute names)) (es.map (blank names)) := by
  rw [blank, tree_block, Tree.blank_node, List.map_map]
  rfl

end

/-- What is right inside an element is among its elements. -/
theorem tree_mem_elements {e : Element} {es : List Element} (he : e ∈ es) (tag : String)
    (attributes : List Attribute) : e.tree ∈ (block tag attributes es).tree.elements := by
  have hself : e.tree ∈ e.tree.elements := by cases e <;> simp
  rw [tree_block, Tree.elements_node]
  exact List.mem_cons_of_mem _ (List.mem_flatMap.2 ⟨_, List.mem_map_of_mem he, hself⟩)

/-- All elements in the tree of the element have the property. -/
def All (P : Tree → Prop) (e : Element) : Prop := ∀ t ∈ e.tree.elements, P t

section
variable {P : Tree → Prop} {tag content : String} {attributes : List Attribute} {es : List Element}

theorem all_leaf (h : P (leaf tag attributes).tree) : (leaf tag attributes).All P := by
  simpa [All] using h

theorem all_text (h : P (text tag content).tree) : (text tag content).All P := by
  simpa [All] using h

theorem all_block (h : P (block tag attributes es).tree) (hes : ∀ e ∈ es, e.All P) :
    (block tag attributes es).All P := by
  intro t ht
  rw [tree_block, Tree.elements_node, List.flatMap_map] at ht
  rcases List.mem_cons.1 ht with rfl | ht
  · rwa [tree_block] at h
  · obtain ⟨e, he, ht⟩ := List.mem_flatMap.1 ht
    exact hes e he t ht

end

end Element

end Swimlane.Xml
