/-
  Swimlane — references in documents.

  Elements of a document refer to each other by identifiers: flows to their ends,
  nodes to their flows, lanes to their nodes, shapes, edges and planes to what
  they show, and the pool to its process.

  * `Document.Consistent t`: identifiers differ, and all references lead to what
    they should.
  * `references_drawnPlane`, `references_drawnDiagrams`: diagrams show elements of
    the process.
  * `sited_drawnRoot`: the process and its sub-processes are scoped, and lanes
    refer to nodes of the process.
  * `render_consistent`: a document is read as a consistent tree.
-/
import Swimlane.Proofs.Document.Scopes

namespace Swimlane

open Document (Bearer Scoped nodesIn)
open Swimlane.Graph (EachLevel Linked)
open Xml (Element Attribute Tree White tree_leaf tree_text tree_block textTrees named named_append)
open Xml.Element (ids all_leaf all_text all_block)

/-! ## Consistent documents -/

namespace Document

/-- The attributes that refer to elements anywhere in the document. -/
def referenceNames : List String := ["bpmnElement", "processRef"]

/-- The identifiers of a document. -/
def identifiers (t : Tree) : List String := (t.marked ["id"]).map Prod.snd

/-- Identifiers differ, and all references lead to what they should. -/
structure Consistent (t : Tree) : Prop where
  /-- No identifier is given twice. -/
  identifiers_nodup : (identifiers t).Nodup
  /-- Flows and nodes refer to each other, in the process and in sub-processes. -/
  scopes : ∀ s ∈ t.elements, Scoped s
  /-- Lanes refer to nodes of the process. -/
  lanes : ∀ r ∈ t.elements, r.tag = "bpmn:flowNodeRef" →
    ∃ p ∈ t.elements, p.tag = "bpmn:process" ∧
      ∃ n ∈ nodesIn p, n.attribute? "id" = some r.content
  /-- Shapes, edges, planes and pools refer to elements of the document. -/
  references : ∀ a ∈ t.marked referenceNames, a.2 ∈ identifiers t

end Document

open Document (referenceNames identifiers Consistent)

/-! ## References from everywhere -/

/-- The references of an element. -/
def Xml.Element.references (e : Element) : List String := (e.marked referenceNames).map Prod.snd

open Xml.Element (references)

section
variable {tag : String} {attributes : List Attribute} {es : List Element}

theorem references_block : (Element.block tag attributes es).references =
    (named referenceNames attributes).map Prod.snd ++ es.flatMap references := by
  rw [references, Xml.Element.marked_block, List.map_append, List.map_flatMap]
  rfl

end

theorem references_collaboration (name : String) :
    (Document.collaboration name).references = ["Process_1"] := by
  simp [Document.collaboration, references, named, referenceNames, Document.processId]

theorem references_laneElement (b : LaneBand Float32) : (Document.laneElement b).references = [] := by
  simp [Document.laneElement, references, named, referenceNames]

theorem references_process (name : String) (lanes : List (LaneBand Float32)) (es : List Element) :
    (Document.process name lanes es).references = es.flatMap references := by
  simp only [Document.process, references_block, List.flatMap_cons, List.flatMap_map,
    references_laneElement]
  simp [named, referenceNames]

/-- A shape refers to what it shows. -/
theorem references_shape (elementId : String) {as : List Attribute}
    (has : named referenceNames as = []) (b : Box Float32) :
    (shape elementId as b).references = [elementId] := by
  have hbox : b.element.references = [] := by
    simp [Box.element, references, named, referenceNames]
  rw [shape, references_block, named_append, has, List.flatMap_singleton, hbox]
  simp [named, referenceNames]

theorem references_laneShape {theme : Theme} (b : LaneBand Float32) :
    (b.shape theme).references = [b.lane.elementId] := by
  refine references_shape _ ?_ _
  cases theme.laneColor? b.lane <;> simp [named, horizontal, colorAttributes, referenceNames]

theorem references_nodeShape {theme : Theme} (p : Placement Float32) (n : Node) :
    (p.shape theme n).references = [p.renderedId] := by
  have hcolors : named referenceNames (p.colors theme n.loops) = [] := by
    unfold Placement.colors
    split <;> simp [named, colorAttributes, referenceNames]
  refine references_shape _ ?_ _
  rw [named_append, hcolors]
  split <;> simp [named, referenceNames]

theorem references_edge (e : EdgeRoute Float32) : e.drawn.references = [e.renderedId] := by
  simp [EdgeRoute.drawn, Point.element, references, named, referenceNames, List.flatMap_map]

/-- A plane refers to what it shows. -/
theorem references_diagram (suffix elementId : String) (es : List Element) :
    (diagram suffix elementId es).references = elementId :: es.flatMap references := by
  simp [diagram, references_block, named, referenceNames]

theorem references_element {α : Type} (p : Placement α) (id label : String) (loops : Bool)
    (refs : List FlowRef) (es : List Element) :
    (p.element id label loops refs es).references = es.flatMap references := by
  have hnamed : named referenceNames [("id", p.renderedId), ("name", label)] = [] := by
    simp [named, referenceNames]
  cases loops <;> simp [Placement.element, references, hnamed, List.map_flatMap] <;> rfl

/-! ## References of a graph -/

section
variable {α : Type} [Inhabited α]

theorem references_drawnFlow (l : GraphLayout α) (f : Flow) : (l.drawnFlow f).references = [] := by
  cases hlabel : f.label <;>
    simp [GraphLayout.drawnFlow, references, named, referenceNames, hlabel]

/-- The elements of a graph refer to each other only. -/
theorem references_drawnElements (l : GraphLayout α) (g : Graph) :
    (g.drawnElements l).flatMap references = [] := by
  induction g using Graph.levels_induction generalizing l with
  | step g ih =>
    have hnode : ∀ n ∈ g.nodes, (n.drawnElement l (l.drawnRefs g.flows)).references = [] := by
      intro n hn
      rw [Node.drawnElement, references_element]
      unfold Node.drawnInside
      cases hinner : n.children with
      | none => rfl
      | some inner => exact ih n hn inner hinner _
    rw [drawnElements_eq, List.flatMap_append, List.flatMap_map, List.flatMap_map]
    simp only [references_drawnFlow]
    rw [List.flatMap_congr hnode]
    simp

/-- The identifiers of nodes, of what is inside them, and of flows. -/
theorem mem_ids_drawnElements {l : GraphLayout α} {g : Graph} {id : String} :
    id ∈ (g.drawnElements l).flatMap ids ↔
      (∃ n ∈ g.nodes, id = (l.nodeAt n.id).renderedId ∨ id ∈ (n.drawnInside l).flatMap ids) ∨
        ∃ f ∈ g.flows, id = (l.edgeAt f.id).renderedId := by
  rw [drawnElements_eq, List.flatMap_append, List.flatMap_map, List.flatMap_map]
  simp only [List.mem_append, List.mem_flatMap, Node.drawnElement, ids_element, ids_drawnFlow,
    List.mem_cons, List.not_mem_nil, or_false]

end

section
variable {theme : Theme} (l : GraphLayout Float32) (g : Graph)

/-- **A plane shows elements of the process.** -/
theorem references_drawnPlane :
    (g.drawnPlane theme l).flatMap references ⊆ (g.drawnElements l).flatMap ids := by
  intro id hid
  rw [Graph.drawnPlane, List.flatMap_append, List.flatMap_map, List.flatMap_map] at hid
  simp only [references_nodeShape, references_edge, List.mem_append, List.mem_flatMap,
    List.mem_singleton] at hid
  rw [mem_ids_drawnElements]
  rcases hid with ⟨n, hn, hid⟩ | hid
  · exact Or.inl ⟨n, hn, Or.inl hid⟩
  · exact Or.inr hid

/-- **The diagrams of sub-processes show elements of the process.** -/
theorem references_drawnDiagrams :
    (g.drawnDiagrams theme l).flatMap references ⊆ (g.drawnElements l).flatMap ids := by
  induction g using Graph.levels_induction generalizing l with
  | step g ih =>
    intro id hid
    rw [drawnDiagrams_eq, List.flatMap_assoc, List.mem_flatMap] at hid
    obtain ⟨n, hn, hid⟩ := hid
    refine mem_ids_drawnElements.2 (Or.inl ⟨n, hn, ?_⟩)
    unfold Node.drawnDiagrams at hid
    unfold Node.drawnInside
    cases hinner : n.children with
    | none =>
      rw [hinner] at hid
      cases hid
    | some inner =>
      rw [hinner] at hid
      dsimp only at hid ⊢
      rw [List.flatMap_cons, references_diagram, List.cons_append, List.mem_cons,
        List.mem_append] at hid
      rcases hid with hid | hid | hid
      · exact Or.inl hid
      · exact Or.inr (references_drawnPlane _ inner hid)
      · exact Or.inr (ih n hn inner hinner _ hid)

end

/-- **What is shown or referred to in a document** is an element of it. -/
theorem references_drawnRoot (theme : Theme) (info : Document.Meta) (g : Graph)
    (l : GraphLayout Float32) (pool : Box Float32) :
    (Document.drawnRoot theme info g l pool).references ⊆
      (Document.drawnRoot theme info g l pool).ids := by
  have hpart : ∀ e ∈ [Document.collaboration g.name, Document.process g.name l.lanes
      (g.drawnElements l)], e.ids ⊆ (Document.drawnRoot theme info g l pool).ids := by
    intro e he id hid
    rw [Document.drawnRoot, ids_block]
    refine List.mem_append_right _ (List.mem_flatMap.2 ⟨e, ?_, hid⟩)
    simp only [List.mem_cons, List.not_mem_nil, or_false] at he
    rcases he with rfl | rfl <;> simp
  have hcollaboration := hpart _ List.mem_cons_self
  have hprocess := hpart _ (List.mem_cons_of_mem _ List.mem_cons_self)
  rw [ids_collaboration] at hcollaboration
  rw [ids_process] at hprocess
  have helements : (g.drawnElements l).flatMap ids ⊆
      (Document.drawnRoot theme info g l pool).ids := fun id hid =>
    hprocess (by simp only [List.mem_cons, List.mem_append, hid, or_true])
  have hroot : named referenceNames (Document.rootAttributes theme info) = [] := by
    unfold Document.rootAttributes Document.namespaces Document.colorNamespace
    cases theme.usesColor <;> simp [named, referenceNames]
  have hpool : (shape Document.participantId [horizontal] pool).references = ["Participant_1"] :=
    references_shape _ (by simp [named, horizontal, referenceNames]) _
  intro id hid
  rw [Document.drawnRoot, references_block, hroot] at hid
  simp only [Document.mainDiagram, List.map_nil, List.nil_append, List.cons_append,
    List.flatMap_cons, List.flatMap_append, List.flatMap_map, references_collaboration,
    references_process, references_drawnElements, references_diagram, references_laneShape, hpool,
    List.mem_append, List.mem_cons] at hid
  rcases hid with rfl | rfl | rfl | (hlane | hplane) | hinner
  · exact hprocess List.mem_cons_self
  · exact hcollaboration List.mem_cons_self
  · exact hcollaboration (List.mem_cons_of_mem _ List.mem_cons_self)
  · obtain ⟨b, hb, hid⟩ := List.mem_flatMap.1 hlane
    rw [List.mem_singleton.1 hid]
    refine hprocess (List.mem_cons_of_mem _ (List.mem_cons_of_mem _ (List.mem_append_left _ ?_)))
    exact List.mem_map_of_mem hb
  · exact helements (references_drawnPlane l g hplane)
  · exact helements (references_drawnDiagrams l g hinner)

/-! ## Scopes and lanes -/

/-- The element is scoped and, if it is an entry of a lane, refers to a member. -/
structure Sited (members : List String) (t : Tree) : Prop where
  scope : Scoped t
  entry : t.tag = "bpmn:flowNodeRef" → t.content ∈ members

/-- The element is neither a node nor a flow, and all elements in it are sited. -/
structure Apart (members : List String) (e : Element) : Prop where
  tag_notMem : e.tag ∉ memberTags
  all : e.All (Sited members)

section
variable {members : List String} {tag : String} {attributes : List Attribute} {es : List Element}

theorem sited_leaf (htag : tag ≠ "bpmn:flowNodeRef") :
    (Element.leaf tag attributes).All (Sited members) := by
  refine all_leaf ⟨.of_tags ?_, fun h => ?_⟩
  · rw [tree_leaf]
    exact fun c hc => by cases hc
  · rw [tree_leaf] at h
    exact absurd h htag

theorem sited_block (htag : tag ≠ "bpmn:flowNodeRef")
    (hscope : Scoped (Element.block tag attributes es).tree)
    (hes : ∀ e ∈ es, e.All (Sited members)) :
    (Element.block tag attributes es).All (Sited members) := by
  refine all_block ⟨hscope, fun h => ?_⟩ hes
  rw [tree_block] at h
  exact absurd h htag

/-- Elements that are apart are scoped together. -/
theorem scoped_of_tags (h : ∀ e ∈ es, e.tag ∉ memberTags) :
    Scoped (Element.block tag attributes es).tree := by
  refine .of_tags ?_
  rw [tree_block]
  exact List.forall_mem_map.2 fun e he => by rw [Element.tag_tree]; exact h e he

theorem Apart.leaf (htag : tag ∉ "bpmn:flowNodeRef" :: memberTags) :
    Apart members (.leaf tag attributes) where
  tag_notMem := fun h => htag (List.mem_cons_of_mem _ h)
  all := sited_leaf (List.ne_of_not_mem_cons htag)

theorem Apart.text {content : String} (htag : tag ∉ memberTags)
    (h : tag = "bpmn:flowNodeRef" → (Element.text tag content).tree.content ∈ members) :
    Apart members (.text tag content) := by
  refine ⟨htag, all_text ⟨.of_tags fun c hc => ?_, fun htag => h ?_⟩⟩
  · rw [tree_text, Tree.children, textTrees] at hc
    split at hc
    · cases hc
    · rw [List.mem_singleton.1 hc]
      exact show "" ∉ memberTags by decide
  · rwa [tree_text] at htag

theorem Apart.block (htag : tag ∉ "bpmn:flowNodeRef" :: memberTags)
    (hes : ∀ e ∈ es, Apart members e) : Apart members (.block tag attributes es) where
  tag_notMem := fun h => htag (List.mem_cons_of_mem _ h)
  all := sited_block (List.ne_of_not_mem_cons htag) (scoped_of_tags fun e he => (hes e he).tag_notMem)
    fun e he => (hes e he).all

end

/-! ## The process -/

section
variable {members : List String}

theorem apart_collaboration (name : String) : Apart members (Document.collaboration name) :=
  .block (by decide) (List.forall_mem_singleton.2 (.leaf (by decide)))

/-- A lane has members that are not white. -/
theorem apart_laneElement {b : LaneBand Float32}
    (h : ∀ id ∈ b.members, id ∈ members ∧ ¬ White id.toList) :
    Apart members (Document.laneElement b) := by
  refine .block (by decide) (List.forall_mem_map.2 fun id hid => .text (by decide) fun _ => ?_)
  rw [content_text (h id hid).2]
  exact (h id hid).1

/-- The element of a node, if it can hold what is inside it. -/
theorem sited_element {α : Type} (p : Placement α) (kind : NodeKind) (hp : p.tag = kind.tag)
    (id label : String) (loops : Bool) (refs : List FlowRef) {es : List Element}
    (hscope : ∀ (tag : String) (attributes : List Attribute) (before : List Element),
      (∀ e ∈ before, e.tag ∉ memberTags) → Scoped (Element.block tag attributes (before ++ es)).tree)
    (hes : ∀ e ∈ es, e.All (Sited members)) :
    (p.element id label loops refs es).All (Sited members) := by
  have htag : p.tag ≠ "bpmn:flowNodeRef" := by
    rw [hp]
    cases kind <;> decide
  have htexts : ∀ tag ∈ ["bpmn:incoming", "bpmn:outgoing"], ∀ refs : List FlowRef,
      ∀ e ∈ refs.map fun r => Element.text tag r.2, Apart members e := by
    intro tag htag refs
    refine List.forall_mem_map.2 fun r _ => .text ?_ fun h => ?_
    · revert tag
      decide
    · rw [h] at htag
      exact absurd htag (by decide)
  have hbefore : ∀ e ∈ (refs.filter fun r => r.1.target = id).map (fun r =>
        Element.text "bpmn:incoming" r.2) ++
      (refs.filter fun r => r.1.source = id).map (fun r => Element.text "bpmn:outgoing" r.2) ++
      (if loops then [Element.leaf "bpmn:standardLoopCharacteristics" []] else []),
      Apart members e := by
    intro e he
    rcases List.mem_append.1 he with he | he
    · rcases List.mem_append.1 he with he | he
      · exact htexts "bpmn:incoming" (by decide) _ e he
      · exact htexts "bpmn:outgoing" (by decide) _ e he
    · cases loops with
      | false => cases he
      | true =>
        rw [List.mem_singleton.1 he]
        exact .leaf (by decide)
  refine sited_block htag (hscope _ _ _ fun e he => (hbefore e he).tag_notMem) fun e he => ?_
  rcases List.mem_append.1 he with he | he
  · exact (hbefore e he).all
  · exact hes e he

/-- **The process and its sub-processes are scoped.** -/
theorem sited_drawnElements {α : Type} [Scalar α] [Inhabited α] {grid : Grid α} {banding : Banding}
    {stem : String} {g : Graph} (hg : EachLevel Linked g) :
    ∀ e ∈ g.drawnElements (g.layoutWith grid banding stem), e.All (Sited members) := by
  induction hg generalizing banding stem with
  | @intro g here inside ih =>
    rw [drawnElements_eq]
    intro e he
    rcases List.mem_append.1 he with he | he
    · obtain ⟨n, hn, rfl⟩ := List.mem_map.1 he
      have htag : ((g.layoutWith grid banding stem).nodeAt n.id).tag = n.kind.tag := by
        rw [nodeAt_layoutWith here hn]
        rfl
      unfold Node.drawnElement Node.drawnInside
      cases hinner : n.children with
      | none =>
        refine sited_element _ n.kind htag _ _ _ _ (fun _ _ before h => ?_) fun e he => by cases he
        rw [List.append_nil]
        exact scoped_of_tags h
      | some inner =>
        dsimp only
        rw [innerAt_layoutWith here hn hinner]
        refine sited_element _ n.kind htag _ _ _ _ (fun tag attributes before h => ?_)
          (ih n hn inner hinner)
        exact scoped_block grid .single _ (inside n hn inner hinner) tag attributes h
    · obtain ⟨f, -, rfl⟩ := List.mem_map.1 he
      exact sited_leaf (by decide)

/-! ## The diagrams -/

theorem apart_shape (elementId : String) (attributes : List Attribute) (b : Box Float32) :
    Apart members (shape elementId attributes b) :=
  .block (by decide) (List.forall_mem_singleton.2 (.leaf (by decide)))

theorem apart_edge (e : EdgeRoute Float32) : Apart members e.drawn :=
  .block (by decide) (List.forall_mem_map.2 fun _ _ => .leaf (by decide))

theorem apart_diagram (suffix elementId : String) {contents : List Element}
    (h : ∀ e ∈ contents, Apart members e) : Apart members (diagram suffix elementId contents) :=
  .block (by decide) (List.forall_mem_singleton.2 (.block (by decide) h))

theorem apart_drawnPlane (theme : Theme) (l : GraphLayout Float32) (g : Graph) :
    ∀ e ∈ g.drawnPlane theme l, Apart members e := by
  intro e he
  rcases List.mem_append.1 he with he | he
  · obtain ⟨n, -, rfl⟩ := List.mem_map.1 he
    exact apart_shape _ _ _
  · obtain ⟨f, -, rfl⟩ := List.mem_map.1 he
    exact apart_edge _

theorem apart_drawnDiagrams (theme : Theme) (l : GraphLayout Float32) (g : Graph) :
    ∀ e ∈ g.drawnDiagrams theme l, Apart members e := by
  induction g using Graph.levels_induction generalizing l with
  | step g ih =>
    rw [drawnDiagrams_eq]
    intro e he
    obtain ⟨n, hn, he⟩ := List.mem_flatMap.1 he
    unfold Node.drawnDiagrams at he
    cases hinner : n.children with
    | none =>
      rw [hinner] at he
      cases he
    | some inner =>
      rw [hinner] at he
      rcases List.mem_cons.1 he with rfl | he
      · exact apart_diagram _ _ (apart_drawnPlane theme _ inner)
      · exact ih n hn inner hinner _ e he

end

/-! ## Lanes -/

/-- The members of lanes are nodes of the process. -/
theorem exists_of_mem_members {α : Type} [Scalar α] {grid : Grid α} {g : Graph} (hg : Linked g)
    {b : LaneBand α} (hb : b ∈ (g.layout grid).lanes) {id : String} (hid : id ∈ b.members) :
    ∃ n ∈ g.nodes, id = g.nodeName "" n := by
  rw [Graph.layout, layoutWith_eq] at hb
  obtain ⟨lane, -, rfl⟩ := List.mem_map.1 hb
  obtain ⟨nodeId, hmem, hname⟩ := List.mem_filterMap.1 hid
  have hnode : nodeId ∈ g.nodeIds := Graph.mem_traversal.1 (List.mem_filter.1 hmem).1
  obtain ⟨n, hn, rfl⟩ := Graph.mem_nodeIds.1 hnode
  rw [get?_placements grid .lanes "" hg.nodeIds_nodup hn] at hname
  exact ⟨n, hn, (Option.some.inj hname).symm⟩

/-! ## Documents -/

section
variable {g : Graph} (hg : EachLevel Linked g) (grid : Grid Float32) (theme : Theme)
  (info : Document.Meta) (pool : Box Float32)

include hg

/-- A node of the process is an element right inside that of the process. -/
theorem exists_node_process {n : Node} (hn : n ∈ g.nodes) :
    ∃ t ∈ nodesIn (Document.process g.name (g.layout grid).lanes
      (g.drawnElements (g.layout grid))).tree, t.attribute? "id" = some (g.nodeName "" n) := by
  have hlanes : ∀ e ∈ [Element.block "bpmn:laneSet" [("id", "LaneSet_1")]
      ((g.layout grid).lanes.map Document.laneElement)], e.tag ∉ memberTags :=
    List.forall_mem_singleton.2 (show "bpmn:laneSet" ∉ memberTags by decide)
  have hnodes := (members_block grid .lanes "" hg.here "bpmn:process"
    [("id", Document.processId), ("name", g.name), ("isExecutable", "false")] hlanes).1
  refine ⟨_, hnodes ▸ List.mem_map_of_mem hn, ?_⟩
  rw [Node.drawnElement, attribute?_element, renderedId_nodeAt hg.here hn]

/-- **All elements of a document are sited**; the members of lanes are nodes of the
    process. -/
theorem sited_drawnRoot : (Document.drawnRoot theme info g (g.layout grid) pool).All
    (Sited (g.nodes.map (g.nodeName ""))) := by
  have hlanes : ∀ e ∈ [Element.block "bpmn:laneSet" [("id", "LaneSet_1")]
      ((g.layout grid).lanes.map Document.laneElement)], Apart (g.nodes.map (g.nodeName "")) e := by
    refine List.forall_mem_singleton.2 (.block (by decide) (List.forall_mem_map.2 fun b hb => ?_))
    refine apart_laneElement fun id hid => ?_
    obtain ⟨n, hn, rfl⟩ := exists_of_mem_members hg.here hb hid
    exact ⟨List.mem_map_of_mem hn, not_white_nodeName "" n⟩
  have hprocess : Apart (g.nodes.map (g.nodeName ""))
      (Document.process g.name (g.layout grid).lanes (g.drawnElements (g.layout grid))) := by
    refine ⟨show "bpmn:process" ∉ memberTags by decide, sited_block (by decide) ?_ ?_⟩
    · exact scoped_block grid .lanes "" hg _ _ fun e he => (hlanes e he).tag_notMem
    · exact List.forall_mem_cons.2 ⟨(hlanes _ List.mem_cons_self).all, sited_drawnElements hg⟩
  refine (Apart.block (by decide) fun e he => ?_).all
  rcases List.mem_append.1 he with he | he
  · simp only [List.mem_cons, List.not_mem_nil, or_false] at he
    rcases he with rfl | rfl | rfl
    · exact apart_collaboration g.name
    · exact hprocess
    · refine apart_diagram _ _ (List.forall_mem_cons.2 ⟨apart_shape _ _ _, fun e he => ?_⟩)
      rcases List.mem_append.1 he with he | he
      · obtain ⟨b, -, rfl⟩ := List.mem_map.1 he
        exact apart_shape _ _ _
      · exact apart_drawnPlane theme _ g e he
  · exact apart_drawnDiagrams theme _ g e he

/-- **The tree of a document is consistent.** -/
theorem consistent_drawnRoot :
    Consistent (Document.drawnRoot theme info g (g.layout grid) pool).tree where
  identifiers_nodup := Document.nodup_ids_drawnRoot hg info pool
  scopes := fun s hs => (sited_drawnRoot hg grid theme info pool s hs).scope
  lanes := by
    intro r hr htag
    obtain ⟨n, hn, hname⟩ :=
      List.mem_map.1 ((sited_drawnRoot hg grid theme info pool r hr).entry htag)
    obtain ⟨t, ht, hid⟩ := exists_node_process hg grid hn
    refine ⟨_, Element.tree_mem_elements ?_ _ _, ?_, t, ht, hid.trans (congrArg some hname)⟩
    · exact List.mem_append_left _ (List.mem_cons_of_mem _ List.mem_cons_self)
    · rw [Element.tag_tree]
      rfl
  references := by
    intro a ha
    exact references_drawnRoot theme info g _ pool (List.mem_map_of_mem ha)

end

/-- **Identifiers and references of a document are consistent.**  The document of a
    linked graph is read as one tree.  Its identifiers are those of the elements,
    shapes, edges, diagrams and planes of all levels, and of what every document has.
    They differ, flows and nodes refer to each other, lanes refer to nodes of the
    process, and shapes, edges, planes and the pool refer to elements of the
    document. -/
theorem render_consistent {g : Graph} (hg : EachLevel Linked g) (grid : Grid Float32)
    (theme : Theme) (info : Document.Meta) :
    ∃ xml t, Document.render theme info g (g.layout grid) = .ok xml ∧ Xml.ReadsAs xml t ∧
      (identifiers t).Perm ((Document.fixedBearers ++ g.bearers []).map Bearer.text) ∧
      Consistent t := by
  obtain ⟨pool, hpool⟩ := g.pool_layout grid
  obtain ⟨xml, hxml, hreads⟩ := render_readsAs hg hpool theme info
  exact ⟨xml, _, hxml, hreads, Document.ids_drawnRoot_perm hg info pool,
    consistent_drawnRoot hg grid theme info pool⟩

/-- The identifiers of `enclosing`, on both levels. -/
theorem consistent_enclosing :
    EachLevel Linked Graph.enclosing ∧
    ∃ xml t, Document.render .lanes {} Graph.enclosing (Graph.enclosing.layout .standard) = .ok xml ∧
      Xml.ReadsAs xml t ∧ Consistent t ∧
      (identifiers t).Perm
        (Document.fixedBearers.map Bearer.text ++
          ["StartEvent_1", "SubProcess_2", "EndEvent_3", "Flow_1", "Flow_2", "StartEvent_1_di",
           "SubProcess_2_di", "EndEvent_3_di", "Flow_1_di", "Flow_2_di", "BPMNDiagram_SubProcess_2",
           "BPMNPlane_SubProcess_2", "SubProcess_2_StartEvent_1", "SubProcess_2_UserTask_2",
           "SubProcess_2_Flow_1", "SubProcess_2_StartEvent_1_di", "SubProcess_2_UserTask_2_di",
           "SubProcess_2_Flow_1_di"]) := by
  obtain ⟨xml, t, hxml, hreads, hids, hconsistent⟩ :=
    render_consistent Graph.linked_enclosing .standard .lanes {}
  refine ⟨Graph.linked_enclosing, xml, t, hxml, hreads, hconsistent, hids.trans (.of_eq ?_)⟩
  rw [List.map_append, List.append_cancel_left_eq]
  cbv

end Swimlane
