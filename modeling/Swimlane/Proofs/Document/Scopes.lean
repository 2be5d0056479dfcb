/-
  Swimlane — references inside processes.

  In the process and in every sub-process, flows refer to the nodes at their
  ends, and nodes list the flows that enter and leave them.

  * `Document.Scoped t`: the flows and nodes right inside an element refer to each
    other.
  * `Scoped.of_tags`: an element without flows and nodes is scoped.
  * `entries_element`: what the element of a node lists.
  * `scoped_block`: what holds a graph is scoped.
-/
import Swimlane.Proofs.Document.Identifiers

namespace Swimlane

open Swimlane.Graph (EachLevel Linked eq_of_id_eq)
open Xml (Element Attribute Tree White tree_leaf tree_text tree_block textTrees)
open Xml.Tree (attribute?)

/-! ## Scopes -/

namespace Document

/-- The tags of nodes. -/
def nodeTags : List String := NodeKind.all.map NodeKind.tag

/-- The nodes right inside an element. -/
def nodesIn (t : Tree) : List Tree := t.children.filter fun e => nodeTags.contains e.tag

/-- The flows right inside an element. -/
def flowsIn (t : Tree) : List Tree := t.children.filter fun e => e.tag == "bpmn:sequenceFlow"

/-- The texts of the entries with a tag right inside an element. -/
def entries (tag : String) (t : Tree) : List String :=
  (t.children.filter fun e => e.tag == tag).map Tree.content

/-- The flows and the nodes right inside an element refer to each other: the ends
    of the flows are such nodes, and the nodes list the flows that enter and leave
    them, in order. -/
structure Scoped (t : Tree) : Prop where
  ends : ∀ f ∈ flowsIn t, ∀ name ∈ ["sourceRef", "targetRef"],
    ∃ n ∈ nodesIn t, ∃ id, n.attribute? "id" = some id ∧ f.attribute? name = some id
  incoming : ∀ n ∈ nodesIn t, (entries "bpmn:incoming" n).map some =
    ((flowsIn t).filter fun f => f.attribute? "targetRef" == n.attribute? "id").map (attribute? "id")
  outgoing : ∀ n ∈ nodesIn t, (entries "bpmn:outgoing" n).map some =
    ((flowsIn t).filter fun f => f.attribute? "sourceRef" == n.attribute? "id").map (attribute? "id")

end Document

open Document (Scoped nodeTags nodesIn flowsIn entries)

/-! ## Elements with nothing to refer to -/

/-- The tags of nodes and flows. -/
def memberTags : List String := "bpmn:sequenceFlow" :: nodeTags

theorem Document.Scoped.of_tags {t : Tree} (h : ∀ c ∈ t.children, c.tag ∉ memberTags) : Scoped t := by
  have hnodes : nodesIn t = [] := by
    refine List.filter_eq_nil_iff.2 fun c hc hnode => h c hc ?_
    exact List.mem_cons_of_mem _ (List.contains_iff_mem.1 hnode)
  have hflows : flowsIn t = [] := by
    refine List.filter_eq_nil_iff.2 fun c hc hflow => h c hc ?_
    rw [eq_of_beq hflow]
    exact List.mem_cons_self
  constructor <;> simp [hnodes, hflows]

/-! ## Nodes and flows -/

/-- A text that is not white is the content of its element. -/
theorem content_text {content : String} (h : ¬ White content.toList) (tag : String) :
    (Element.text tag content).tree.content = content := by
  rw [tree_text, textTrees, if_neg h]
  rfl

theorem entries_block (tag tag' : String) (attributes : List Attribute) (es : List Element) :
    entries tag (Element.block tag' attributes es).tree =
      (es.filter fun e => e.tag == tag).map fun e => e.tree.content := by
  rw [entries, tree_block]
  simp [Tree.children, List.filter_map, Function.comp_def]

/-- Entries with one tag are found under it, with their texts. -/
theorem filter_texts (tag tag' : String) (refs : List FlowRef) :
    (refs.map fun r => Element.text tag r.2).filter (fun e => e.tag == tag') =
      if tag = tag' then refs.map fun r => Element.text tag r.2 else [] := by
  by_cases h : tag = tag' <;> simp [List.filter_map, Function.comp_def, Element.tag, h]

section
variable {α : Type} (p : Placement α) (id label : String) (loops : Bool) {refs : List FlowRef}
  {es : List Element}

theorem attribute?_element :
    (p.element id label loops refs es).tree.attribute? "id" = some p.renderedId := by
  rw [Placement.element, tree_block]
  rfl

/-- The entries of an element, if what is inside it are nodes and flows. -/
theorem entries_element (hes : ∀ e ∈ es, e.tag ∈ memberTags)
    (hrefs : ∀ r ∈ refs, ¬ White r.2.toList) :
    entries "bpmn:incoming" (p.element id label loops refs es).tree =
        (refs.filter fun r => r.1.target = id).map Prod.snd ∧
      entries "bpmn:outgoing" (p.element id label loops refs es).tree =
        (refs.filter fun r => r.1.source = id).map Prod.snd := by
  have htags : "bpmn:incoming" ∉ memberTags ∧ "bpmn:outgoing" ∉ memberTags := by decide
  have hinside : ∀ tag ∉ memberTags, es.filter (fun e => e.tag == tag) = [] := by
    intro tag htag
    exact List.filter_eq_nil_iff.2 fun e he heq => htag (eq_of_beq heq ▸ hes e he)
  have hloops : ∀ tag, tag ≠ "bpmn:standardLoopCharacteristics" →
      (if loops then [Element.leaf "bpmn:standardLoopCharacteristics" []] else []).filter
        (fun e => e.tag == tag) = [] := by
    intro tag htag
    cases loops <;> simp [Element.tag, Ne.symm htag]
  have hcontent : ∀ (tag : String) (q : FlowRef → Bool),
      ((refs.filter q).map fun r => Element.text tag r.2).map (fun e => e.tree.content) =
        (refs.filter q).map Prod.snd := by
    intro tag q
    rw [List.map_map]
    refine List.map_congr_left fun r hr => content_text (hrefs r ?_) tag
    exact (List.mem_filter.1 hr).1
  constructor
  · rw [Placement.element, entries_block, ← hcontent "bpmn:incoming"]
    simp only [List.filter_append, filter_texts, hinside _ htags.1,
      hloops "bpmn:incoming" (by decide)]
    simp
  · rw [Placement.element, entries_block, ← hcontent "bpmn:outgoing"]
    simp only [List.filter_append, filter_texts, hinside _ htags.2,
      hloops "bpmn:outgoing" (by decide)]
    simp

end

theorem attribute?_drawnFlow {α : Type} [Inhabited α] (l : GraphLayout α) (f : Flow) :
    (l.drawnFlow f).tree.attribute? "id" = some (l.edgeAt f.id).renderedId ∧
      (l.drawnFlow f).tree.attribute? "sourceRef" = some (l.nodeAt f.source).renderedId ∧
      (l.drawnFlow f).tree.attribute? "targetRef" = some (l.nodeAt f.target).renderedId := by
  rw [GraphLayout.drawnFlow, tree_leaf]
  exact ⟨rfl, rfl, rfl⟩

/-! ## Elements of a graph -/

section
variable {α : Type} [Scalar α] [Inhabited α] {grid : Grid α} {banding : Banding} {g : Graph}

theorem tag_drawnElement (hg : Linked g) {stem : String} {n : Node} (hn : n ∈ g.nodes)
    (refs : List FlowRef) :
    (n.drawnElement (g.layoutWith grid banding stem) refs).tag = n.kind.tag := by
  have htag : ((g.layoutWith grid banding stem).nodeAt n.id).tag = n.kind.tag := by
    rw [nodeAt_layoutWith hg hn]
    rfl
  exact htag

theorem tag_mem_nodeTags (kind : NodeKind) : kind.tag ∈ nodeTags := by cases kind <;> decide

theorem tag_ne_sequenceFlow (kind : NodeKind) : kind.tag ≠ "bpmn:sequenceFlow" := by
  cases kind <;> decide

/-- The elements of a graph are nodes and flows. -/
theorem tag_drawnElements (hg : Linked g) {stem : String} :
    ∀ e ∈ g.drawnElements (g.layoutWith grid banding stem), e.tag ∈ memberTags := by
  intro e he
  rw [drawnElements_eq] at he
  rcases List.mem_append.1 he with he | he
  · obtain ⟨n, hn, rfl⟩ := List.mem_map.1 he
    rw [tag_drawnElement hg hn]
    exact List.mem_cons_of_mem _ (tag_mem_nodeTags _)
  · obtain ⟨f, -, rfl⟩ := List.mem_map.1 he
    exact List.mem_cons_self

/-- What is selected by tags right inside an element. -/
theorem filter_children (q : String → Bool) (tag : String) (attributes : List Attribute)
    {before es : List Element} (hbefore : ∀ e ∈ before, q e.tag = false) :
    (Element.block tag attributes (before ++ es)).tree.children.filter (fun t => q t.tag) =
      (es.filter fun e => q e.tag).map Element.tree := by
  have hnone : before.filter (fun e => q e.tag) = [] :=
    List.filter_eq_nil_iff.2 fun e he => ne_true_of_eq_false (hbefore e he)
  rw [tree_block, Tree.children, List.filter_map, ← List.nil_append (es.filter _), ← hnone,
    ← List.filter_append]
  simp [Function.comp_def]

variable (grid banding) (stem : String)

/-- The nodes and the flows right inside an element that holds a graph. -/
theorem members_block (hg : Linked g) (tag : String) (attributes : List Attribute)
    {before : List Element} (hbefore : ∀ e ∈ before, e.tag ∉ memberTags) :
    nodesIn (Element.block tag attributes
        (before ++ g.drawnElements (g.layoutWith grid banding stem))).tree =
        (g.nodes.map fun n => (n.drawnElement (g.layoutWith grid banding stem)
          ((g.layoutWith grid banding stem).drawnRefs g.flows)).tree) ∧
      flowsIn (Element.block tag attributes
        (before ++ g.drawnElements (g.layoutWith grid banding stem))).tree =
        g.flows.map fun f => ((g.layoutWith grid banding stem).drawnFlow f).tree := by
  have htag : ∀ n ∈ g.nodes, (n.drawnElement (g.layoutWith grid banding stem)
      ((g.layoutWith grid banding stem).drawnRefs g.flows)).tag = n.kind.tag :=
    fun n hn => tag_drawnElement hg hn _
  have hnodes : ∀ e ∈ before, nodeTags.contains e.tag = false := by
    intro e he
    refine eq_false_of_ne_true fun hcontains => hbefore e he ?_
    exact List.mem_cons_of_mem _ (List.contains_iff_mem.1 hcontains)
  have hflows : ∀ e ∈ before, (e.tag == "bpmn:sequenceFlow") = false := by
    intro e he
    refine eq_false_of_ne_true fun heq => hbefore e he ?_
    rw [eq_of_beq heq]
    exact List.mem_cons_self
  constructor
  · refine (filter_children nodeTags.contains tag attributes hnodes).trans ?_
    rw [drawnElements_eq, List.filter_append, List.filter_eq_self.2, List.filter_eq_nil_iff.2]
    · simp
    · exact List.forall_mem_map.2 fun f _ => show ¬ nodeTags.contains "bpmn:sequenceFlow" by decide
    · refine List.forall_mem_map.2 fun n hn => ?_
      rw [htag n hn]
      exact List.contains_iff_mem.2 (tag_mem_nodeTags _)
  · refine (filter_children (· == "bpmn:sequenceFlow") tag attributes hflows).trans ?_
    rw [drawnElements_eq, List.filter_append, List.filter_eq_nil_iff.2, List.filter_eq_self.2]
    · simp
    · exact List.forall_mem_map.2 fun f _ => rfl
    · refine List.forall_mem_map.2 fun n hn => ?_
      rw [htag n hn]
      exact fun heq => tag_ne_sequenceFlow _ (eq_of_beq heq)

/-! ## Names of nodes and flows -/

theorem not_white_nodeName (n : Node) : ¬ White (g.nodeName stem n).toList :=
  fun hwhite => absurd (hwhite '_' (by simp [Graph.nodeName])) (by decide)

theorem not_white_flowName (f : Flow) : ¬ White (g.flowName stem f).toList :=
  fun hwhite => absurd (hwhite '_' (by simp [Graph.flowName])) (by decide)

/-- The end of a flow leads to the node with its identifier. -/
theorem renderedId_nodeAt_eq_iff (hg : Linked g) {id : String} {n : Node} (hn : n ∈ g.nodes)
    (hid : id ∈ g.nodeIds) :
    ((g.layoutWith grid banding stem).nodeAt id).renderedId =
      ((g.layoutWith grid banding stem).nodeAt n.id).renderedId ↔ id = n.id := by
  obtain ⟨m, hm, rfl⟩ := Graph.mem_nodeIds.1 hid
  rw [renderedId_nodeAt hg hm, renderedId_nodeAt hg hn, Graph.nodeName_inj hg.nodeIds_nodup _ hm hn]

/-! ## What holds a graph -/

/-- What is inside the element of a node are nodes and flows. -/
theorem tag_drawnInside (hg : EachLevel Linked g) {n : Node} (hn : n ∈ g.nodes) :
    ∀ e ∈ n.drawnInside (g.layoutWith grid banding stem), e.tag ∈ memberTags := by
  unfold Node.drawnInside
  cases hinner : n.children with
  | none => exact fun e he => by cases he
  | some inner =>
    dsimp only
    rw [innerAt_layoutWith hg.here hn hinner]
    exact tag_drawnElements (hg.inside hn hinner).here

/-- The entries of the element of a node are the flows at the node. -/
theorem entries_drawnElement (hg : EachLevel Linked g) {n : Node} (hn : n ∈ g.nodes) :
    entries "bpmn:incoming" (n.drawnElement (g.layoutWith grid banding stem)
        ((g.layoutWith grid banding stem).drawnRefs g.flows)).tree =
        (g.flows.filter fun f => f.target = n.id).map (g.flowName stem) ∧
      entries "bpmn:outgoing" (n.drawnElement (g.layoutWith grid banding stem)
        ((g.layoutWith grid banding stem).drawnRefs g.flows)).tree =
        (g.flows.filter fun f => f.source = n.id).map (g.flowName stem) := by
  have hrefs : (g.layoutWith grid banding stem).drawnRefs g.flows =
      g.flows.map fun f => (f, g.flowName stem f) :=
    List.map_congr_left fun f hf => by rw [renderedId_edgeAt hg.here hf]
  have hwhite : ∀ r ∈ g.flows.map fun f => (f, g.flowName stem f), ¬ White r.2.toList :=
    List.forall_mem_map.2 fun f _ => not_white_flowName stem f
  obtain ⟨hin, hout⟩ := entries_element ((g.layoutWith grid banding stem).nodeAt n.id) n.id n.label
    n.loops (tag_drawnInside grid banding stem hg hn) hwhite
  rw [Node.drawnElement, hrefs, hin, hout]
  simp [List.filter_map, Function.comp_def]

/-- The flows at a node are those with its name in an attribute; `side` is the end
    of flows that the attribute gives. -/
theorem flows_at (hg : Linked g) {n : Node} (hn : n ∈ g.nodes) (name : String)
    {side : Flow → String} (hside : ∀ f ∈ g.flows, side f ∈ g.nodeIds ∧
      ((g.layoutWith grid banding stem).drawnFlow f).tree.attribute? name =
        some ((g.layoutWith grid banding stem).nodeAt (side f)).renderedId) :
    ((g.flows.map fun f => ((g.layoutWith grid banding stem).drawnFlow f).tree).filter fun f =>
        f.attribute? name == some ((g.layoutWith grid banding stem).nodeAt n.id).renderedId).map
        (attribute? "id") =
      ((g.flows.filter fun f => side f = n.id).map (g.flowName stem)).map some := by
  have hsame : g.flows.filter ((fun f => f.attribute? name ==
      some ((g.layoutWith grid banding stem).nodeAt n.id).renderedId) ∘
      fun f => ((g.layoutWith grid banding stem).drawnFlow f).tree) =
      g.flows.filter fun f => side f = n.id := by
    refine List.filter_congr fun f hf => ?_
    obtain ⟨hid, hattribute⟩ := hside f hf
    rw [Bool.eq_iff_iff]
    simp [hattribute, renderedId_nodeAt_eq_iff grid banding stem hg hn hid]
  rw [List.filter_map, List.map_map, List.map_map, hsame]
  refine List.map_congr_left fun f hf => ?_
  rw [Function.comp_apply, (attribute?_drawnFlow _ f).1,
    renderedId_edgeAt hg (List.mem_filter.1 hf).1]
  rfl

/-- **What holds a graph is scoped.** -/
theorem scoped_block (hg : EachLevel Linked g) (tag : String) (attributes : List Attribute)
    {before : List Element} (hbefore : ∀ e ∈ before, e.tag ∉ memberTags) :
    Scoped (Element.block tag attributes
      (before ++ g.drawnElements (g.layoutWith grid banding stem))).tree := by
  obtain ⟨hnodes, hflows⟩ := members_block grid banding stem hg.here tag attributes hbefore
  have hends : ∀ id ∈ g.nodeIds, ∃ n ∈ nodesIn (Element.block tag attributes
      (before ++ g.drawnElements (g.layoutWith grid banding stem))).tree,
      n.attribute? "id" = some ((g.layoutWith grid banding stem).nodeAt id).renderedId := by
    intro id hid
    obtain ⟨n, hn, rfl⟩ := Graph.mem_nodeIds.1 hid
    rw [hnodes]
    exact ⟨_, List.mem_map_of_mem hn, attribute?_element ..⟩
  constructor
  · rw [hflows]
    refine List.forall_mem_map.2 fun f hf name hname => ?_
    obtain ⟨-, hsource, htarget⟩ := attribute?_drawnFlow (g.layoutWith grid banding stem) f
    simp only [List.mem_cons, List.not_mem_nil, or_false] at hname
    rcases hname with rfl | rfl
    · obtain ⟨n, hn, hid⟩ := hends _ (hg.here.ends f hf).1
      exact ⟨n, hn, _, hid, hsource⟩
    · obtain ⟨n, hn, hid⟩ := hends _ (hg.here.ends f hf).2
      exact ⟨n, hn, _, hid, htarget⟩
  · rw [hnodes, hflows]
    refine List.forall_mem_map.2 fun n hn => ?_
    rw [(entries_drawnElement grid banding stem hg hn).1]
    exact (flows_at grid banding stem hg.here hn "targetRef" fun f hf =>
      ⟨(hg.here.ends f hf).2, (attribute?_drawnFlow _ f).2.2⟩).symm
  · rw [hnodes, hflows]
    refine List.forall_mem_map.2 fun n hn => ?_
    rw [(entries_drawnElement grid banding stem hg hn).2]
    exact (flows_at grid banding stem hg.here hn "sourceRef" fun f hf =>
      ⟨(hg.here.ends f hf).1, (attribute?_drawnFlow _ f).2.1⟩).symm

end

end Swimlane
