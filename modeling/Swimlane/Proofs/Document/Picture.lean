/-
  Swimlane — one picture in three forms.

  A layout is written three times: as the elements of a process, as the shapes and edges of
  diagrams, and as a listing.  Each form goes through the graph in its own way.  Here they
  are compared with the listing: the elements and the planes hold what it lists, one to one,
  on the same levels, with the same identifiers, boxes and points.  The elements and the
  planes are those of the tree as which the text of the document is read.

  * `OneToOne r xs ys`: two lists correspond one to one, in any order.
  * `Picture.shape`, `Picture.edge`, `Picture.diagram`: what a picture is made of.
  * `Outline.Written o ts`: the elements `ts` write down what the listing has.
  * `Outline.Shown o ts`: a plane with the contents `ts` shows one level of the listing.
  * `Outline.insides`: the listings of all sub-processes, at any depth;
    `ShownApart`: a diagram of such a sub-process.
  * `SamePicture theme name o t`: a document and a listing are one picture.
  * `same_picture`: the document and the listing of a graph and its layout are.
-/
import Mathlib.Data.Multiset.AddSub
import Mathlib.Data.Multiset.MapFold
import Swimlane.Proofs.Document.Scopes
import Swimlane.Proofs.Layout.Outline

namespace Swimlane

open Swimlane.Graph (EachLevel Linked)
open Xml (Element Attribute Tree tree_leaf tree_text tree_block textTrees)

/-! ## One to one -/

/-- The lists correspond one to one, in any order. -/
def OneToOne {β γ : Type} (r : β → γ → Prop) (xs : List β) (ys : List γ) : Prop :=
  Multiset.Rel r xs ys

namespace OneToOne

variable {β γ δ : Type} {r : γ → δ → Prop}

theorem of_perm {xs xs' : List γ} {ys : List δ} (h : xs.Perm xs') (hxs : OneToOne r xs' ys) :
    OneToOne r xs ys := by
  rwa [OneToOne, Multiset.coe_eq_coe.2 h]

theorem map {xs : List β} {f : β → γ} {h : β → δ} (hparts : ∀ x ∈ xs, r (f x) (h x)) :
    OneToOne r (xs.map f) (xs.map h) := by
  rw [OneToOne, ← Multiset.map_coe, ← Multiset.map_coe]
  exact Multiset.rel_map.2 (Multiset.rel_refl_of_refl_on hparts)

theorem cons {x : γ} {y : δ} {xs : List γ} {ys : List δ} (hxy : r x y) (h : OneToOne r xs ys) :
    OneToOne r (x :: xs) (y :: ys) := by
  rw [OneToOne, ← Multiset.cons_coe, ← Multiset.cons_coe]
  exact Multiset.Rel.cons hxy h

/-- Lists that are put together of parts correspond if their parts do. -/
theorem flatMap {xs : List β} {f : β → List γ} {h : β → List δ}
    (hparts : ∀ x ∈ xs, OneToOne r (f x) (h x)) : OneToOne r (xs.flatMap f) (xs.flatMap h) := by
  induction xs with
  | nil => exact Multiset.Rel.zero
  | cons x xs ih =>
    obtain ⟨hx, hxs⟩ := List.forall_mem_cons.1 hparts
    rw [OneToOne, List.flatMap_cons, List.flatMap_cons, ← Multiset.coe_add, ← Multiset.coe_add]
    exact Multiset.Rel.add hx (ih hxs)

end OneToOne

/-! ## What a picture is made of -/

namespace Picture

open Document (coordinate)

/-- The bounds of a shape. -/
def bounds (b : Box Float32) : Tree :=
  .node "dc:Bounds"
    [("x", coordinate b.x), ("y", coordinate b.y), ("width", coordinate b.width),
      ("height", coordinate b.height)] []

/-- A shape: it refers to an element and has its box. -/
def shape (elementId : String) (attributes : List Attribute) (b : Box Float32) : Tree :=
  .node "bpmndi:BPMNShape" ([("id", elementId ++ "_di"), ("bpmnElement", elementId)] ++ attributes)
    [bounds b]

/-- An edge: it refers to an element and has its points. -/
def edge (elementId : String) (points : List (Point Float32)) : Tree :=
  .node "bpmndi:BPMNEdge" [("id", elementId ++ "_di"), ("bpmnElement", elementId)]
    (points.map fun p => .node "di:waypoint" [("x", coordinate p.x), ("y", coordinate p.y)] [])

/-- A diagram: its plane refers to an element. -/
def diagram (suffix elementId : String) (contents : List Tree) : Tree :=
  .node "bpmndi:BPMNDiagram" [("id", "BPMNDiagram_" ++ suffix)]
    [.node "bpmndi:BPMNPlane" [("id", "BPMNPlane_" ++ suffix), ("bpmnElement", elementId)] contents]

/-- A lane lies on its side and has its colours. -/
def laneShape (theme : Theme) (b : LaneBand Float32) : Tree :=
  shape b.lane.elementId
    (("isHorizontal", "true") ::
      match theme.laneColor? b.lane with
      | some c => [("color:background-color", c.fill), ("color:border-color", c.stroke)]
      | none => [])
    b.bounds

/-- A lane refers to its nodes. -/
def lane (b : LaneBand Float32) : Tree :=
  .node "bpmn:lane" [("id", b.lane.elementId), ("name", b.lane.displayName)]
    (b.members.map fun id => .node "bpmn:flowNodeRef" [] (textTrees id))

section
variable (suffix elementId : String) (attributes : List Attribute) (b : Box Float32)

theorem tree_shape :
    (Swimlane.shape elementId attributes b).tree = shape elementId attributes b := by
  simp [Swimlane.shape, Box.element, shape, bounds]

theorem tree_edge (e : EdgeRoute Float32) : e.drawn.tree = edge e.renderedId e.points := by
  simp [EdgeRoute.drawn, Point.element, edge]

theorem tree_diagram (es : List Element) : (Swimlane.diagram suffix elementId es).tree =
    diagram suffix elementId (es.map Element.tree) := by
  simp [Swimlane.diagram, diagram]

theorem tree_laneShape (theme : Theme) (b : LaneBand Float32) :
    (b.shape theme).tree = laneShape theme b := by
  rw [LaneBand.shape, tree_shape]
  rfl

theorem tree_laneElement (b : LaneBand Float32) : (Document.laneElement b).tree = lane b := by
  simp [Document.laneElement, lane]

end

end Picture

/-! ## Elements -/

/-- What the element of a listed node holds. -/
structure Member (α : Type) where
  node : OutlineNode α
  /-- The flows that enter and leave it, and whether it is repeated. -/
  entries : List Tree
  /-- What is inside it. -/
  contents : List Tree

variable {α : Type}

def Member.tree (m : Member α) : Tree :=
  .node m.node.kind.tag [("id", m.node.renderedId), ("name", m.node.label)]
    (m.entries ++ m.contents)

/-- The element of a listed flow between elements of nodes. -/
def OutlineEdge.tree (source target : String) (f : OutlineEdge α) : Tree :=
  .node "bpmn:sequenceFlow"
    ([("id", f.renderedId), ("sourceRef", source), ("targetRef", target)] ++
      match f.label with
      | some label => [("name", label)]
      | none => []) []

/-- The elements write down what is listed: one element for each node, in any order, which
    holds what is inside it, and one for each flow, in order, which joins the elements of its
    ends. -/
inductive Outline.Written : Outline α → List Tree → Prop
  | intro {o : Outline α} {members : List (Member α)} {source target : OutlineEdge α → String}
      (listed : (members.map Member.node).Perm o.nodes)
      (joins : ∀ f ∈ o.edges, ∃ n ∈ o.nodes, ∃ m ∈ o.nodes, n.id = f.source ∧ m.id = f.target ∧
        n.renderedId = source f ∧ m.renderedId = target f)
      (entries : ∀ m ∈ members, ∀ t ∈ m.entries, t.tag ∉ memberTags)
      (leaf : ∀ m ∈ members, m.node.nested = none → m.contents = [])
      (inside : ∀ m ∈ members, ∀ k, m.node.nested = some k → k.Written m.contents) :
      o.Written (members.map Member.tree ++ o.edges.map fun f => f.tree (source f) (target f))

section
variable [Inhabited α]

/-- What stands in the element of a node before what is inside it. -/
def Node.drawnEntries (refs : List FlowRef) (n : Node) : List Element :=
  (refs.filter fun r => r.1.target = n.id).map (fun r => .text "bpmn:incoming" r.2) ++
    (refs.filter fun r => r.1.source = n.id).map (fun r => .text "bpmn:outgoing" r.2) ++
    if n.loops then [.leaf "bpmn:standardLoopCharacteristics" []] else []

/-- The element of a node, taken apart. -/
def Node.member (l : GraphLayout α) (refs : List FlowRef) (n : Node) : Member α where
  node := n.entry l
  entries := (n.drawnEntries refs).map Element.tree
  contents := (n.drawnInside l).map Element.tree

theorem tag_drawnEntries {refs : List FlowRef} {n : Node} {e : Element}
    (he : e ∈ n.drawnEntries refs) : e.tag ∉ memberTags := by
  rcases List.mem_append.1 he with he | he
  · rcases List.mem_append.1 he with he | he
    · obtain ⟨r, -, rfl⟩ := List.mem_map.1 he
      exact (by decide : "bpmn:incoming" ∉ memberTags)
    · obtain ⟨r, -, rfl⟩ := List.mem_map.1 he
      exact (by decide : "bpmn:outgoing" ∉ memberTags)
  · cases hloops : n.loops with
    | false =>
      rw [hloops] at he
      cases he
    | true =>
      rw [hloops] at he
      rw [List.mem_singleton.1 he]
      exact (by decide : "bpmn:standardLoopCharacteristics" ∉ memberTags)

variable [Scalar α] {grid : Grid α} {banding : Banding} {stem : String} {g : Graph}

theorem tree_member (hg : Linked g) (refs : List FlowRef) {n : Node} (hn : n ∈ g.nodes) :
    (n.member (g.layoutWith grid banding stem) refs).tree =
      (n.drawnElement (g.layoutWith grid banding stem) refs).tree := by
  have htag : ((g.layoutWith grid banding stem).nodeAt n.id).tag = n.kind.tag := by
    rw [nodeAt_layoutWith hg hn]
    rfl
  rw [Node.drawnElement, Placement.element, htag, tree_block, List.map_append]
  rfl

/-- What is inside a node, listed and written. -/
theorem inside_cases (grid : Grid α) (banding : Banding) (stem : String) (hg : Linked g) {n : Node}
    (hn : n ∈ g.nodes) :
    n.outlineInside (g.layoutWith grid banding stem) = none ∧
      n.drawnInside (g.layoutWith grid banding stem) = [] ∨
    ∃ inner, n.children = some inner ∧
      n.outlineInside (g.layoutWith grid banding stem) =
        some (Outline.of (inner.layoutWith grid .single (g.innerStem stem n)) inner) ∧
      n.drawnInside (g.layoutWith grid banding stem) =
        inner.drawnElements (inner.layoutWith grid .single (g.innerStem stem n)) := by
  cases hinner : n.children with
  | none =>
    refine Or.inl ⟨?_, ?_⟩
    · rw [Node.outlineInside, hinner, Option.bind_none]
    · rw [Node.drawnInside, hinner]
  | some inner =>
    refine Or.inr ⟨inner, rfl, outlineInside_eq hg hn hinner, ?_⟩
    rw [Node.drawnInside, hinner]
    dsimp only
    rw [innerAt_layoutWith hg hn hinner]

/-- A listed flow joins the elements of listed nodes. -/
theorem exists_ends (hg : EachLevel Linked g) :
    ∀ f ∈ (Outline.of (g.layoutWith grid banding stem) g).edges,
      ∃ n ∈ (Outline.of (g.layoutWith grid banding stem) g).nodes,
      ∃ m ∈ (Outline.of (g.layoutWith grid banding stem) g).nodes,
        n.id = f.source ∧ m.id = f.target ∧
        n.renderedId = ((g.layoutWith grid banding stem).nodeAt f.source).renderedId ∧
        m.renderedId = ((g.layoutWith grid banding stem).nodeAt f.target).renderedId := by
  have hlisted : ∀ id ∈ g.nodeIds, ∃ n ∈ (Outline.of (g.layoutWith grid banding stem) g).nodes,
      n.id = id ∧ n.renderedId = ((g.layoutWith grid banding stem).nodeAt id).renderedId := by
    intro id hid
    obtain ⟨n, hn, rfl⟩ := Graph.mem_nodeIds.1 hid
    exact ⟨_, (outline_nodes_perm hg.here).mem_iff.2 (List.mem_map_of_mem hn), rfl, rfl⟩
  rw [outline_edges_eq hg]
  refine List.forall_mem_map.2 fun f hf => ?_
  obtain ⟨hsource, htarget⟩ := hg.here.ends f hf
  obtain ⟨n, hn, hnid, hnname⟩ := hlisted f.source hsource
  obtain ⟨m, hm, hmid, hmname⟩ := hlisted f.target htarget
  exact ⟨n, hn, m, hm, hnid, hmid, hnname, hmname⟩

/-- **The elements of a graph** write down its listing. -/
theorem written_drawnElements (hg : EachLevel Linked g) :
    (Outline.of (g.layoutWith grid banding stem) g).Written
      ((g.drawnElements (g.layoutWith grid banding stem)).map Element.tree) := by
  induction hg generalizing banding stem with
  | @intro g here inside ih =>
    have hg : EachLevel Linked g := .intro here inside
    have hflows : (g.flows.map (g.layoutWith grid banding stem).drawnFlow).map Element.tree =
        (Outline.of (g.layoutWith grid banding stem) g).edges.map fun f => f.tree
          ((g.layoutWith grid banding stem).nodeAt f.source).renderedId
          ((g.layoutWith grid banding stem).nodeAt f.target).renderedId := by
      rw [outline_edges_eq hg, List.map_map, List.map_map]
      exact List.map_congr_left fun f _ => tree_leaf _ _
    have hnodes : ∀ refs,
        (g.nodes.map (Node.drawnElement (g.layoutWith grid banding stem) refs)).map Element.tree =
        (g.nodes.map (Node.member (g.layoutWith grid banding stem) refs)).map Member.tree := by
      intro refs
      rw [List.map_map, List.map_map]
      exact List.map_congr_left fun n hn => (tree_member here refs hn).symm
    rw [drawnElements_eq, List.map_append, hnodes, hflows]
    refine .intro ?_ (exists_ends hg) ?_ ?_ ?_
    · rw [List.map_map]
      exact (outline_nodes_perm here).symm
    · refine List.forall_mem_map.2 fun n _ => List.forall_mem_map.2 fun e he => ?_
      rw [Element.tag_tree]
      exact tag_drawnEntries he
    · refine List.forall_mem_map.2 fun n hn hnested => ?_
      rcases inside_cases grid banding stem here hn with ⟨-, hinside⟩ | ⟨inner, -, hlisted, -⟩
      · rw [Node.member, hinside]
        rfl
      · cases hlisted.symm.trans hnested
    · refine List.forall_mem_map.2 fun n hn k hnested => ?_
      rcases inside_cases grid banding stem here hn with
        ⟨hlisted, -⟩ | ⟨inner, hinner, hlisted, hinside⟩
      · cases hlisted.symm.trans hnested
      · obtain rfl := Option.some.inj (hlisted.symm.trans hnested)
        rw [Node.member, hinside]
        exact ih n hn inner hinner

end

/-! ## Planes -/

/-- A shape of a listed node: it refers to its element and has its box. -/
def OutlineNode.ShownBy (n : OutlineNode Float32) (t : Tree) : Prop :=
  ∃ attributes, t = Picture.shape n.renderedId attributes n.box

/-- The contents of a plane show what is listed: one shape for each node, in any order, and
    one edge for each flow, in order. -/
inductive Outline.Shown (o : Outline Float32) : List Tree → Prop
  | intro {shapes : List Tree} (nodes : OneToOne OutlineNode.ShownBy o.nodes shapes) :
      o.Shown (shapes ++ o.edges.map fun f => Picture.edge f.renderedId f.points)

mutual

/-- The listings of all sub-processes in a listing, at any depth, with the identifiers of
    their nodes. -/
def Outline.insides : Outline α → List (String × Outline α)
  | ⟨_, _, _, _, _, _, _, nodes, _⟩ => nodeInsides nodes

def nodeInsides : List (OutlineNode α) → List (String × Outline α)
  | [] => []
  | ⟨_, renderedId, _, _, _, _, _, _, some inner⟩ :: rest =>
    (renderedId, inner) :: (inner.insides ++ nodeInsides rest)
  | ⟨_, _, _, _, _, _, _, _, none⟩ :: rest => nodeInsides rest

end

/-- The listings of what is inside a node, at any depth. -/
def OutlineNode.insides (n : OutlineNode α) : List (String × Outline α) :=
  match n.nested with
  | some inner => (n.renderedId, inner) :: inner.insides
  | none => []

theorem insides_eq (o : Outline α) : o.insides = o.nodes.flatMap OutlineNode.insides := by
  obtain ⟨name, rows, columns, width, height, pool, lanes, nodes, edges⟩ := o
  rw [Outline.insides]
  induction nodes with
  | nil => rw [nodeInsides]; rfl
  | cons n rest ih =>
    obtain ⟨id, renderedId, kind, label, lane, row, column, box, nested⟩ := n
    cases nested with
    | none => rw [nodeInsides, ih]; rfl
    | some inner => rw [nodeInsides, ih]; rfl

/-- A diagram that shows the sub-process of a listed node. -/
def ShownApart (r : String × Outline Float32) (t : Tree) : Prop :=
  ∃ contents, t = Picture.diagram r.1 r.1 contents ∧ r.2.Shown contents

section
variable {grid : Grid Float32} {banding : Banding} {stem : String} {g : Graph} (theme : Theme)

/-- **The plane of a graph** shows its listing. -/
theorem shown_drawnPlane (hg : EachLevel Linked g) :
    (Outline.of (g.layoutWith grid banding stem) g).Shown
      ((g.drawnPlane theme (g.layoutWith grid banding stem)).map Element.tree) := by
  have hedges :
      (g.flows.map fun f => ((g.layoutWith grid banding stem).edgeAt f.id).drawn).map Element.tree =
        (Outline.of (g.layoutWith grid banding stem) g).edges.map fun f =>
          Picture.edge f.renderedId f.points := by
    rw [outline_edges_eq hg, List.map_map, List.map_map]
    exact List.map_congr_left fun f _ => Picture.tree_edge _
  rw [Graph.drawnPlane, List.map_append, hedges, List.map_map]
  exact .intro (.of_perm (outline_nodes_perm hg.here)
    (.map fun n _ => ⟨_, Picture.tree_shape _ _ _⟩))

/-- **The diagrams of sub-processes** show their listings. -/
theorem shownApart_drawnDiagrams (hg : EachLevel Linked g) : OneToOne ShownApart
    (Outline.of (g.layoutWith grid banding stem) g).insides
    ((g.drawnDiagrams theme (g.layoutWith grid banding stem)).map Element.tree) := by
  induction hg generalizing banding stem with
  | @intro g here inside ih =>
    rw [insides_eq, drawnDiagrams_eq, List.map_flatMap]
    refine .of_perm ((outline_nodes_perm here).flatMap_right _) ?_
    rw [List.flatMap_map]
    refine .flatMap fun n hn => ?_
    rw [OutlineNode.insides, nested_entry, Node.drawnDiagrams]
    cases hinner : n.children with
    | none =>
      rw [Node.outlineInside, hinner]
      exact Multiset.Rel.zero
    | some inner =>
      rw [outlineInside_eq here hn hinner]
      dsimp only
      rw [innerAt_layoutWith here hn hinner, List.map_cons, Picture.tree_diagram]
      exact .cons ⟨_, rfl, shown_drawnPlane theme (inside n hn inner hinner)⟩ (ih n hn inner hinner)

end

/-! ## The whole picture -/

/-- A document and a listing are one picture.  The process writes down the listing; the first
    plane shows the pool, the lanes and the nodes and flows of the first level; each further
    diagram belongs to a sub-process, and each sub-process at any depth has one. -/
inductive SamePicture (theme : Theme) (name : String) (o : Outline Float32) : Tree → Prop
  | intro {attributes : List Attribute} {elements contents diagrams : List Tree}
      {frame : Box Float32}
      (pool : o.pool = some frame)
      (lanes : o.lanes.map LaneBand.lane = Lane.all)
      (written : o.Written elements)
      (shown : o.Shown contents)
      (apart : OneToOne ShownApart o.insides diagrams) :
      SamePicture theme name o
        (.node "bpmn:definitions" attributes
          ([.node "bpmn:collaboration" [("id", "Collaboration_1")]
              [.node "bpmn:participant"
                [("id", "Participant_1"), ("name", name), ("processRef", "Process_1")] []],
            .node "bpmn:process" [("id", "Process_1"), ("name", name), ("isExecutable", "false")]
              (.node "bpmn:laneSet" [("id", "LaneSet_1")] (o.lanes.map Picture.lane) :: elements),
            Picture.diagram "1" "Collaboration_1"
              (Picture.shape "Participant_1" [("isHorizontal", "true")] frame ::
                (o.lanes.map (Picture.laneShape theme) ++ contents))] ++ diagrams))

/-- The tree of a document. -/
theorem tree_drawnRoot (theme : Theme) (info : Document.Meta) (g : Graph) (l : GraphLayout Float32)
    (pool : Box Float32) : (Document.drawnRoot theme info g l pool).tree =
      .node "bpmn:definitions" (Document.rootAttributes theme info)
        ([.node "bpmn:collaboration" [("id", "Collaboration_1")]
            [.node "bpmn:participant"
              [("id", "Participant_1"), ("name", g.name), ("processRef", "Process_1")] []],
          .node "bpmn:process" [("id", "Process_1"), ("name", g.name), ("isExecutable", "false")]
            (.node "bpmn:laneSet" [("id", "LaneSet_1")] (l.lanes.map Picture.lane) ::
              (g.drawnElements l).map Element.tree),
          Picture.diagram "1" "Collaboration_1"
            (Picture.shape "Participant_1" [("isHorizontal", "true")] pool ::
              (l.lanes.map (Picture.laneShape theme) ++
                (g.drawnPlane theme l).map Element.tree))] ++
          (g.drawnDiagrams theme l).map Element.tree) := by
  have hlanes : (l.lanes.map Document.laneElement).map Element.tree = l.lanes.map Picture.lane := by
    rw [List.map_map]
    exact List.map_congr_left fun b _ => Picture.tree_laneElement b
  have hshapes : (l.lanes.map (LaneBand.shape theme)).map Element.tree =
      l.lanes.map (Picture.laneShape theme) := by
    rw [List.map_map]
    exact List.map_congr_left fun b _ => Picture.tree_laneShape theme b
  simp only [Document.drawnRoot, Document.collaboration, Document.process, Document.mainDiagram,
    tree_block, tree_leaf, List.map_append, List.map_cons, List.map_nil, Picture.tree_diagram,
    Picture.tree_shape, hlanes, hshapes]
  rfl

/-- **The three forms of a layout are one picture.**  The document of a graph and its layout
    is written, and what is read of its text is the same picture as their listing, which
    lists the graph. -/
theorem same_picture {g : Graph} (hg : EachLevel Linked g) (grid : Grid Float32) (theme : Theme)
    (info : Document.Meta) :
    (Outline.of (g.layout grid) g).Lists g ∧
    ∃ xml t, Document.render theme info g (g.layout grid) = .ok xml ∧ Xml.ReadsAs xml t ∧
      SamePicture theme g.name (Outline.of (g.layout grid) g) t := by
  obtain ⟨pool, hpool⟩ := g.pool_layout grid
  have hlevel : (Outline.of (g.layout grid) g).pool = (g.layout grid).pool ∧
      (Outline.of (g.layout grid) g).lanes = (g.layout grid).lanes := by
    cases g
    rw [Outline.of]
    exact ⟨rfl, rfl⟩
  obtain ⟨xml, hxml, hreads⟩ := render_readsAs hg hpool theme info
  refine ⟨lists_outline hg, xml, _, hxml, hreads, ?_⟩
  rw [tree_drawnRoot, ← hlevel.2]
  refine .intro (hlevel.1.trans hpool) ?_ (written_drawnElements hg) (shown_drawnPlane theme hg)
    (shownApart_drawnDiagrams theme hg)
  rw [hlevel.2]
  exact map_lane_layout grid g

theorem same_picture_enclosing :
    (Outline.of (Graph.enclosing.layout (.standard : Grid Float32)) Graph.enclosing).Lists
      Graph.enclosing ∧
    ∃ xml t, Document.render .lanes {} Graph.enclosing (Graph.enclosing.layout .standard) =
        .ok xml ∧ Xml.ReadsAs xml t ∧
      SamePicture .lanes Graph.enclosing.name
        (Outline.of (Graph.enclosing.layout .standard) Graph.enclosing) t :=
  same_picture Graph.linked_enclosing .standard .lanes {}

end Swimlane
