/-
  Swimlane — legible documents.

  The identifiers and coordinates of a document, and all that is fixed in it, are
  legible.  Whether the document is legible is a matter of its texts alone, and
  these are not checked.

  * `Formal e`: all values of an element but the texts are legible.
  * `formal_drawnRoot`: the elements of documents are formal.
  * `render_legible`: a document is legible exactly if its texts are.
-/
import Swimlane.Proofs.Document.References
import Swimlane.Proofs.Document.Texts
import Swimlane.Proofs.Xml.Legible

namespace Swimlane

open Swimlane.Graph (EachLevel Linked)
open Xml (Element Attribute Legible LegibleBut legible_append)
open Document (textNames)

/-! ## Identifiers -/

theorem legible_digits (n : ℕ) : Legible (Nat.toDigits 10 n) := by
  intro c hc
  have hdigit : c.isDigit = true := Nat.isDigit_of_mem_toDigits (by decide) (by decide) hc
  simp only [Char.isDigit, Bool.and_eq_true, decide_eq_true_eq, UInt32.le_iff_toNat_le,
    ge_iff_le] at hdigit
  have hlow : 48 ≤ c.toNat := hdigit.1
  have hhigh : c.toNat ≤ 57 := hdigit.2
  simp only [Xml.isXmlChar, Xml.inRanges, List.any_eq_true, Bool.and_eq_true, decide_eq_true_eq]
  exact ⟨(0x20, 0xD7FF), by decide, by dsimp only; omega, by dsimp only; omega⟩

section
variable {stem : String} {g : Graph}

theorem legible_nodeName (h : Legible stem.toList) (n : Node) :
    Legible (g.nodeName stem n).toList := by
  have hkind : Legible n.kind.idStem.toList := by cases n.kind <;> decide
  have hmark : Legible "_".toList := by decide
  simp only [Graph.nodeName, String.toList_append, legible_append]
  refine ⟨⟨⟨h, hkind⟩, hmark⟩, ?_⟩
  simpa using legible_digits _

theorem legible_flowName (h : Legible stem.toList) (f : Flow) :
    Legible (g.flowName stem f).toList := by
  have hmark : Legible "Flow_".toList := by decide
  simp only [Graph.flowName, String.toList_append, legible_append]
  refine ⟨⟨h, hmark⟩, ?_⟩
  simpa using legible_digits _

theorem legible_innerStem (h : Legible stem.toList) (n : Node) :
    Legible (g.innerStem stem n).toList := by
  have hmark : Legible "_".toList := by decide
  rw [Graph.innerStem, String.toList_append, legible_append]
  exact ⟨legible_nodeName h n, hmark⟩

end

/-! ## Coordinates -/

namespace Document

open Decimal

theorem legible_wholeChars (negative : Bool) (n : ℕ) : Legible (wholeChars negative n) := by
  unfold wholeChars
  split
  · split
    · decide
    · exact Xml.legible_cons.2 ⟨by decide, legible_digits _⟩
  · exact legible_digits _

theorem legible_hundredthsChars (n : ℕ) : Legible (hundredthsChars n) := by
  have hfraction : Legible (fixedFraction 2 n) := by
    refine legible_append.2 ⟨fun c hc => ?_, legible_digits _⟩
    rw [List.eq_of_mem_replicate hc]
    decide
  have hkept : Legible ((fixedFraction 2 n).reverse.dropWhile (· == '0')).reverse := fun c hc =>
    hfraction c (List.mem_reverse.1 ((List.dropWhile_suffix _).subset (List.mem_reverse.1 hc)))
  refine legible_append.2 ⟨legible_digits _, ?_⟩
  split
  · exact Xml.legible_nil
  · exact Xml.legible_cons.2 ⟨by decide, hkept⟩

/-- **Coordinates are legible**, whatever they are. -/
theorem legible_coordinate (x : Float32) : Legible (coordinate x).toList := by
  rw [coordinate, String.toList_ofList, coordinateChars]
  split
  · decide
  · split <;> decide
  · split
    · exact legible_wholeChars _ _
    · refine legible_append.2 ⟨?_, legible_hundredthsChars _⟩
      split <;> decide

end Document

/-! ## Formal elements -/

/-- All values of the attributes but the texts are legible. -/
def FormalAttributes (attributes : List Attribute) : Prop :=
  ∀ a ∈ attributes, a.1 ∉ textNames → Legible a.2.toList

/-- All values of the element but the texts are legible. -/
def Formal (e : Element) : Prop := e.All (LegibleBut textNames)

section
variable {tag name value content : String} {attributes others : List Attribute} {es : List Element}

theorem FormalAttributes.nil : FormalAttributes [] := fun _ ha => by cases ha

theorem FormalAttributes.cons (h : Legible value.toList) (hrest : FormalAttributes attributes) :
    FormalAttributes ((name, value) :: attributes) :=
  List.forall_mem_cons.2 ⟨fun _ => h, hrest⟩

/-- A text does not count. -/
theorem FormalAttributes.text (h : name ∈ textNames) (hrest : FormalAttributes attributes) :
    FormalAttributes ((name, value) :: attributes) :=
  List.forall_mem_cons.2 ⟨fun hnot => absurd h hnot, hrest⟩

theorem FormalAttributes.append (h : FormalAttributes attributes)
    (hothers : FormalAttributes others) : FormalAttributes (attributes ++ others) :=
  List.forall_mem_append.2 ⟨h, hothers⟩

theorem formal_leaf (h : FormalAttributes attributes) : Formal (.leaf tag attributes) :=
  Element.all_leaf (Element.legibleBut_leaf.2 h)

theorem formal_text (h : Legible content.toList) : Formal (.text tag content) :=
  Element.all_text (Element.legibleBut_text.2 h)

theorem formal_block (h : FormalAttributes attributes) (hes : ∀ e ∈ es, Formal e) :
    Formal (.block tag attributes es) := Element.all_block (Element.legibleBut_block.2 h) hes

end

/-! ## The process -/

theorem formal_collaboration (name : String) : Formal (Document.collaboration name) := by
  refine formal_block (.cons (by decide) .nil) (List.forall_mem_singleton.2 ?_)
  exact formal_leaf (.cons (by decide) (.text (by decide) (.cons (by decide) .nil)))

theorem formal_laneElement {b : LaneBand Float32} (h : ∀ id ∈ b.members, Legible id.toList) :
    Formal (Document.laneElement b) := by
  have hid : Legible b.lane.elementId.toList := by cases b.lane <;> decide
  refine formal_block (.cons hid (.text (by decide) .nil)) fun e he => ?_
  obtain ⟨id, hid, rfl⟩ := List.mem_map.1 he
  exact formal_text (h id hid)

theorem formal_process (name : String) {lanes : List (LaneBand Float32)} {elements : List Element}
    (hlanes : ∀ b ∈ lanes, ∀ id ∈ b.members, Legible id.toList) (h : ∀ e ∈ elements, Formal e) :
    Formal (Document.process name lanes elements) := by
  refine formal_block (.cons (by decide) (.text (by decide) (.cons (by decide) .nil)))
    (List.forall_mem_cons.2 ⟨?_, h⟩)
  refine formal_block (.cons (by decide) .nil) fun e he => ?_
  obtain ⟨b, hb, rfl⟩ := List.mem_map.1 he
  exact formal_laneElement (hlanes b hb)

theorem formal_element {α : Type} {p : Placement α} {refs : List FlowRef} {contents : List Element}
    (hp : Legible p.renderedId.toList) (hrefs : ∀ r ∈ refs, Legible r.2.toList)
    (h : ∀ e ∈ contents, Formal e) (id label : String) (loops : Bool) :
    Formal (p.element id label loops refs contents) := by
  refine formal_block (.cons hp (.text (by decide) .nil)) fun e he => ?_
  simp only [List.mem_append, List.mem_map] at he
  rcases he with ((⟨r, hr, rfl⟩ | ⟨r, hr, rfl⟩) | he) | he
  · exact formal_text (hrefs r (List.mem_filter.1 hr).1)
  · exact formal_text (hrefs r (List.mem_filter.1 hr).1)
  · cases loops with
    | false => cases he
    | true =>
      rw [List.mem_singleton.1 he]
      exact formal_leaf .nil
  · exact h e he

section
variable {α : Type} [Scalar α] (grid : Grid α) (banding : Banding) {stem : String} {g : Graph}

theorem legible_edgeAt (hg : Linked g) (hstem : Legible stem.toList) {f : Flow}
    (hf : f ∈ g.flows) :
    Legible ((g.layoutWith grid banding stem).edgeAt f.id).renderedId.toList := by
  rw [renderedId_edgeAt hg hf]
  exact legible_flowName hstem f

theorem legible_drawnRefs (hg : Linked g) (hstem : Legible stem.toList) :
    ∀ r ∈ (g.layoutWith grid banding stem).drawnRefs g.flows, Legible r.2.toList := by
  intro r hr
  obtain ⟨f, hf, rfl⟩ := List.mem_map.1 hr
  exact legible_edgeAt grid banding hg hstem hf

variable [Inhabited α]

theorem legible_nodeAt (hg : Linked g) (hstem : Legible stem.toList) {id : String}
    (hid : id ∈ g.nodeIds) :
    Legible ((g.layoutWith grid banding stem).nodeAt id).renderedId.toList := by
  obtain ⟨n, hn, rfl⟩ := Graph.mem_nodeIds.1 hid
  rw [renderedId_nodeAt hg hn]
  exact legible_nodeName hstem n

theorem formal_drawnFlow (hg : Linked g) (hstem : Legible stem.toList) {f : Flow}
    (hf : f ∈ g.flows) : Formal ((g.layoutWith grid banding stem).drawnFlow f) := by
  obtain ⟨hsource, htarget⟩ := hg.ends f hf
  refine formal_leaf (.append (.cons (legible_edgeAt grid banding hg hstem hf)
    (.cons (legible_nodeAt grid banding hg hstem hsource)
      (.cons (legible_nodeAt grid banding hg hstem htarget) .nil))) ?_)
  cases f.label with
  | none => exact .nil
  | some label => exact .text (by decide) .nil

/-- **The elements of a graph are formal.** -/
theorem formal_drawnElements (hg : EachLevel Linked g) (hstem : Legible stem.toList) :
    ∀ e ∈ g.drawnElements (g.layoutWith grid banding stem), Formal e := by
  induction hg generalizing banding stem with
  | @intro g here inside ih =>
    rw [drawnElements_eq]
    intro e he
    rcases List.mem_append.1 he with he | he
    · obtain ⟨n, hn, rfl⟩ := List.mem_map.1 he
      refine formal_element (legible_nodeAt grid banding here hstem (Graph.id_mem_nodeIds hn))
        (legible_drawnRefs grid banding here hstem) ?_ _ _ _
      unfold Node.drawnInside
      cases hinner : n.children with
      | none => exact fun e he => by cases he
      | some inner =>
        dsimp only
        rw [innerAt_layoutWith here hn hinner]
        exact ih n hn inner hinner .single (legible_innerStem hstem n)
    · obtain ⟨f, hf, rfl⟩ := List.mem_map.1 he
      exact formal_drawnFlow grid banding here hstem hf

end

/-! ## The diagrams -/

theorem formal_box (b : Box Float32) : Formal b.element :=
  formal_leaf (.cons (Document.legible_coordinate _) (.cons (Document.legible_coordinate _)
    (.cons (Document.legible_coordinate _) (.cons (Document.legible_coordinate _) .nil))))

theorem formal_shape {elementId : String} {attributes : List Attribute}
    (hid : Legible elementId.toList) (h : FormalAttributes attributes) (b : Box Float32) :
    Formal (shape elementId attributes b) := by
  have hshapeId : Legible (elementId ++ "_di").toList := by
    rw [String.toList_append, legible_append]
    exact ⟨hid, by decide⟩
  exact formal_block (.append (.cons hshapeId (.cons hid .nil)) h)
    (List.forall_mem_singleton.2 (formal_box b))

theorem formalAttributes_colors (fill stroke : String) :
    FormalAttributes (colorAttributes fill stroke) :=
  .text (by decide) (.text (by decide) .nil)

theorem formal_laneShape (theme : Theme) (b : LaneBand Float32) : Formal (b.shape theme) := by
  have hid : Legible b.lane.elementId.toList := by cases b.lane <;> decide
  refine formal_shape hid (.cons (by decide) ?_) b.bounds
  split
  · exact formalAttributes_colors _ _
  · exact .nil

theorem formal_nodeShape {p : Placement Float32} (hp : Legible p.renderedId.toList) (theme : Theme)
    (n : Node) : Formal (p.shape theme n) := by
  refine formal_shape hp (.append ?_ ?_) p.box
  · split
    · exact .cons (by decide) .nil
    · exact .nil
  · unfold Placement.colors
    split
    · exact formalAttributes_colors _ _
    · exact .nil

theorem formal_edge {e : EdgeRoute Float32} (h : Legible e.renderedId.toList) : Formal e.drawn := by
  have hedgeId : Legible (e.renderedId ++ "_di").toList := by
    rw [String.toList_append, legible_append]
    exact ⟨h, by decide⟩
  refine formal_block (.cons hedgeId (.cons h .nil)) fun e he => ?_
  obtain ⟨p, -, rfl⟩ := List.mem_map.1 he
  exact formal_leaf (.cons (Document.legible_coordinate _)
    (.cons (Document.legible_coordinate _) .nil))

theorem formal_diagram {suffix elementId : String} {contents : List Element}
    (hsuffix : Legible suffix.toList) (hid : Legible elementId.toList)
    (h : ∀ e ∈ contents, Formal e) : Formal (diagram suffix elementId contents) := by
  have hdiagramId : Legible ("BPMNDiagram_" ++ suffix).toList := by
    rw [String.toList_append, legible_append]
    exact ⟨by decide, hsuffix⟩
  have hplaneId : Legible ("BPMNPlane_" ++ suffix).toList := by
    rw [String.toList_append, legible_append]
    exact ⟨by decide, hsuffix⟩
  refine formal_block (.cons hdiagramId .nil) (List.forall_mem_singleton.2 ?_)
  exact formal_block (.cons hplaneId (.cons hid .nil)) h

section
variable (theme : Theme) (grid : Grid Float32) (banding : Banding) {stem : String} {g : Graph}

theorem formal_drawnPlane (hg : Linked g) (hstem : Legible stem.toList) :
    ∀ e ∈ g.drawnPlane theme (g.layoutWith grid banding stem), Formal e := by
  intro e he
  rcases List.mem_append.1 he with he | he
  · obtain ⟨n, hn, rfl⟩ := List.mem_map.1 he
    exact formal_nodeShape (legible_nodeAt grid banding hg hstem (Graph.id_mem_nodeIds hn)) theme n
  · obtain ⟨f, hf, rfl⟩ := List.mem_map.1 he
    exact formal_edge (legible_edgeAt grid banding hg hstem hf)

/-- **The diagrams of sub-processes are formal.** -/
theorem formal_drawnDiagrams (hg : EachLevel Linked g) (hstem : Legible stem.toList) :
    ∀ e ∈ g.drawnDiagrams theme (g.layoutWith grid banding stem), Formal e := by
  induction hg generalizing banding stem with
  | @intro g here inside ih =>
    rw [drawnDiagrams_eq]
    intro e he
    obtain ⟨n, hn, he⟩ := List.mem_flatMap.1 he
    unfold Node.drawnDiagrams at he
    cases hinner : n.children with
    | none =>
      rw [hinner] at he
      cases he
    | some inner =>
      have hid := legible_nodeAt grid banding here hstem (Graph.id_mem_nodeIds hn)
      have hinside := legible_innerStem (g := g) hstem n
      rw [hinner] at he
      dsimp only at he
      rw [innerAt_layoutWith here hn hinner] at he
      rcases List.mem_cons.1 he with rfl | he
      · exact formal_diagram hid hid
          (formal_drawnPlane theme grid .single (inside n hn inner hinner).here hinside)
      · exact ih n hn inner hinner .single hinside e he

/-! ## Documents -/

theorem formalAttributes_root (info : Document.Meta) :
    FormalAttributes (Document.rootAttributes theme info) := by
  refine .append (.append ?_ ?_) ?_
  · exact .cons (by decide) (.cons (by decide) (.cons (by decide) (.cons (by decide) .nil)))
  · split
    · exact .cons (by decide) .nil
    · exact .nil
  · exact .cons (by decide) (.cons (by decide) (.text (by decide) (.text (by decide) .nil)))

/-- **The elements of documents are formal.** -/
theorem formal_drawnRoot (hg : EachLevel Linked g) (info : Document.Meta) (pool : Box Float32) :
    Formal (Document.drawnRoot theme info g (g.layout grid) pool) := by
  have hstem : Legible "".toList := by decide
  have hmembers : ∀ b ∈ (g.layout grid).lanes, ∀ id ∈ b.members, Legible id.toList := by
    intro b hb id hid
    obtain ⟨n, -, rfl⟩ := exists_of_mem_members hg.here hb hid
    exact legible_nodeName hstem n
  refine formal_block (formalAttributes_root theme info) fun e he => ?_
  rcases List.mem_append.1 he with he | he
  · simp only [List.mem_cons, List.not_mem_nil, or_false] at he
    rcases he with rfl | rfl | rfl
    · exact formal_collaboration g.name
    · exact formal_process g.name hmembers (formal_drawnElements grid .lanes hg hstem)
    · refine formal_diagram (by decide) (by decide) (List.forall_mem_cons.2 ⟨?_, fun e he => ?_⟩)
      · exact formal_shape (by decide) (.cons (by decide) .nil) pool
      · rcases List.mem_append.1 he with he | he
        · obtain ⟨b, -, rfl⟩ := List.mem_map.1 he
          exact formal_laneShape theme b
        · exact formal_drawnPlane theme grid .lanes hg.here hstem e he
  · exact formal_drawnDiagrams theme grid .lanes hg hstem e he

end

/-- **A document is legible exactly if its texts are.** -/
theorem render_legible {g : Graph} (hg : EachLevel Linked g) (grid : Grid Float32) (theme : Theme)
    (info : Document.Meta) : ∃ xml, Document.render theme info g (g.layout grid) = .ok xml ∧
      (Legible xml.toList ↔ ∀ a ∈ Document.texts theme info g, Legible a.2.toList) := by
  obtain ⟨pool, hpool⟩ := g.pool_layout grid
  refine ⟨_, render_layout_eq hg hpool theme info, ?_⟩
  rw [(uses_drawnRoot hg grid theme info pool).legible_iff Document.isName_of_vocabulary textNames,
    marked_drawnRoot hg info pool]
  exact and_iff_right (formal_drawnRoot theme grid hg info pool)

end Swimlane
