/-
  Swimlane — documents without failures.

  While a document is written, nodes, flows and sub-processes are looked up in
  the layout.  If the layout fits the graph, every look-up has an answer.  Here
  are the parts of a document with these answers put in.

  * `nodeElements_eq`, `nodeDiagrams_eq`: the parts of a document that go through
    a list of nodes take them one by one.
  * `Graph.drawnElements`, `Graph.drawnPlane`, `Graph.drawnDiagrams`,
    `Document.drawnRoot`: the parts with the answers put in.
  * `elements_eq_drawn`, `planeContents_eq_drawn`, `innerDiagrams_eq_drawn`,
    `root_eq_drawn`: the parts are those if the layout fits.
-/
import Swimlane.Document.Basic
import Swimlane.Proofs.Layout.Fit
import Swimlane.Proofs.Stages

namespace Swimlane

open Xml (Element)
open Swimlane.Graph (id_mem_nodeIds)

deriving instance Inhabited for Box, Placement, EdgeRoute, GraphLayout

/-! ## Node by node -/

section
variable {α : Type} {l : GraphLayout α}

/-- The elements inside the element of a node. -/
def Node.inside (l : GraphLayout α) (n : Node) : Except Defect (List Element) :=
  match n.children with
  | some inner => do inner.elements (← l.requireNested n.id)
  | none => return []

/-- The element of a node. -/
def Node.element (l : GraphLayout α) (refs : List FlowRef) (n : Node) : Except Defect Element := do
  let p ← l.requireNode n.id
  let inside ← n.inside l
  return p.element n.id n.label n.loops refs inside

theorem nodeElements_eq (refs : List FlowRef) (nodes : List Node) :
    nodeElements l refs nodes = nodes.mapM (Node.element l refs) := by
  induction nodes with
  | nil => rw [nodeElements, List.mapM_nil]; rfl
  | cons n rest ih =>
    obtain ⟨id, kind, label, lane, children, loops⟩ := n
    cases children with
    | none => simp [nodeElements, Node.element, Node.inside, ih]
    | some inner => simp [nodeElements, Node.element, Node.inside, ih]

theorem elements_eq (g : Graph) : g.elements l = do
    let refs ← l.flowRefs g.flows
    let nodes ← g.nodes.mapM (Node.element l refs)
    let flows ← g.flows.mapM l.flowElement
    return nodes ++ flows := by
  cases g
  simp only [Graph.elements, nodeElements_eq]

end

section
variable {theme : Theme} {l : GraphLayout Float32}

/-- The diagrams of a node and of what is inside it. -/
def Node.diagrams (theme : Theme) (l : GraphLayout Float32) (n : Node) :
    Except Defect (List Element) :=
  match n.children with
  | some inner => do
    let p ← l.requireNode n.id
    let k ← l.requireNested n.id
    let contents ← inner.planeContents theme k
    let deeper ← inner.innerDiagrams theme k
    return diagram p.renderedId p.renderedId contents :: deeper
  | none => return []

theorem nodeDiagrams_eq (nodes : List Node) :
    nodeDiagrams theme l nodes = List.flatten <$> nodes.mapM (Node.diagrams theme l) := by
  induction nodes with
  | nil => rw [nodeDiagrams, List.mapM_nil]; rfl
  | cons n rest ih =>
    obtain ⟨id, kind, label, lane, children, loops⟩ := n
    cases children with
    | none => simp [nodeDiagrams, Node.diagrams, ih, Functor.map_map]
    | some inner => simp [nodeDiagrams, Node.diagrams, ih, Functor.map_map]

theorem innerDiagrams_eq (g : Graph) :
    g.innerDiagrams theme l = List.flatten <$> g.nodes.mapM (Node.diagrams theme l) := by
  cases g
  rw [Graph.innerDiagrams, nodeDiagrams_eq]

end

/-! ## Answers -/

section
variable {α : Type}

/-- How a flow runs, if it runs anyhow. -/
def GraphLayout.edgeAt (l : GraphLayout α) (id : String) : EdgeRoute α := (l.edge? id).getD default

theorem Fits.requireEdge_eq {g : Graph} {l : GraphLayout α} (h : Fits g l) {f : Flow}
    (hf : f ∈ g.flows) :
    l.requireEdge f.id = .ok (l.edgeAt f.id) ∧ 2 ≤ (l.edgeAt f.id).points.length := by
  obtain ⟨e, he, hlength⟩ := h.exists_edge? hf
  simp [GraphLayout.requireEdge, GraphLayout.edgeAt, he, hlength]

variable [Inhabited α]

/-- Where a node stands, if it stands anywhere. -/
def GraphLayout.nodeAt (l : GraphLayout α) (id : String) : Placement α := (l.node? id).getD default

/-- The layout of a sub-process, if it has one. -/
def GraphLayout.innerAt (l : GraphLayout α) (id : String) : GraphLayout α :=
  (l.nested? id).getD default

namespace Fits

variable {g : Graph} {l : GraphLayout α}

theorem requireNode_eq (h : Fits g l) {id : String} (hid : id ∈ g.nodeIds) :
    l.requireNode id = .ok (l.nodeAt id) := by
  obtain ⟨p, hp⟩ := Option.isSome_iff_exists.1 (h.node?_isSome hid)
  simp [GraphLayout.requireNode, GraphLayout.nodeAt, hp]

theorem requireNested_eq (h : Fits g l) {n : Node} (hn : n ∈ g.nodes) {inner : Graph}
    (hinner : n.children = some inner) :
    l.requireNested n.id = .ok (l.innerAt n.id) ∧ Fits inner (l.innerAt n.id) := by
  obtain ⟨k, hk, hfits⟩ := h.exists_nested? hn hinner
  simp [GraphLayout.requireNested, GraphLayout.innerAt, hk, hfits]

end Fits

end

/-! ## Parts of a document -/

section
variable {α : Type}

/-- The flows with their identifiers in the document. -/
def GraphLayout.drawnRefs (l : GraphLayout α) (flows : List Flow) : List FlowRef :=
  flows.map fun f => (f, (l.edgeAt f.id).renderedId)

theorem flowRefs_eq_drawn {g : Graph} {l : GraphLayout α} (h : Fits g l) :
    l.flowRefs g.flows = .ok (l.drawnRefs g.flows) := by
  refine mapM_eq_ok_map ?_
  intro f hf
  rw [(h.requireEdge_eq hf).1]
  rfl

variable [Inhabited α]

/-- The element of a flow. -/
def GraphLayout.drawnFlow (l : GraphLayout α) (f : Flow) : Element :=
  .leaf "bpmn:sequenceFlow"
    ([("id", (l.edgeAt f.id).renderedId), ("sourceRef", (l.nodeAt f.source).renderedId),
      ("targetRef", (l.nodeAt f.target).renderedId)] ++
      match f.label with
      | some label => [("name", label)]
      | none => [])

mutual

/-- The elements of a graph. -/
def Graph.drawnElements (l : GraphLayout α) : Graph → List Element
  | ⟨_, nodes, flows⟩ => drawnNodes l (l.drawnRefs flows) nodes ++ flows.map l.drawnFlow

/-- The elements of nodes. -/
def drawnNodes (l : GraphLayout α) (refs : List FlowRef) : List Node → List Element
  | [] => []
  | ⟨id, _, label, _, some children, loops⟩ :: rest =>
    (l.nodeAt id).element id label loops refs (children.drawnElements (l.innerAt id)) ::
      drawnNodes l refs rest
  | ⟨id, _, label, _, none, loops⟩ :: rest =>
    (l.nodeAt id).element id label loops refs [] :: drawnNodes l refs rest

end

/-- The elements inside the element of a node. -/
def Node.drawnInside (l : GraphLayout α) (n : Node) : List Element :=
  match n.children with
  | some inner => inner.drawnElements (l.innerAt n.id)
  | none => []

/-- The element of a node. -/
def Node.drawnElement (l : GraphLayout α) (refs : List FlowRef) (n : Node) : Element :=
  (l.nodeAt n.id).element n.id n.label n.loops refs (n.drawnInside l)

theorem drawnElements_eq (l : GraphLayout α) (g : Graph) : g.drawnElements l =
    g.nodes.map (Node.drawnElement l (l.drawnRefs g.flows)) ++ g.flows.map l.drawnFlow := by
  obtain ⟨name, nodes, flows⟩ := g
  have hnodes : drawnNodes l (l.drawnRefs flows) nodes =
      nodes.map (Node.drawnElement l (l.drawnRefs flows)) := by
    induction nodes with
    | nil => rfl
    | cons n rest ih =>
      obtain ⟨id, kind, label, lane, children, loops⟩ := n
      cases children <;> simp [drawnNodes, Node.drawnElement, Node.drawnInside, ih]
  rw [Graph.drawnElements, hnodes]

end

/-- The edge of a flow. -/
def EdgeRoute.drawn (e : EdgeRoute Float32) : Element :=
  .block "bpmndi:BPMNEdge" [("id", e.renderedId ++ "_di"), ("bpmnElement", e.renderedId)]
    (e.points.map Point.element)

/-- The shapes and edges of a graph. -/
def Graph.drawnPlane (theme : Theme) (l : GraphLayout Float32) (g : Graph) : List Element :=
  (g.nodes.map fun n => (l.nodeAt n.id).shape theme n) ++ g.flows.map fun f => (l.edgeAt f.id).drawn

mutual

/-- The diagrams of all sub-processes of a graph. -/
def Graph.drawnDiagrams (theme : Theme) (l : GraphLayout Float32) : Graph → List Element
  | ⟨_, nodes, _⟩ => drawnNodeDiagrams theme l nodes

/-- The diagrams of the sub-processes in a list of nodes. -/
def drawnNodeDiagrams (theme : Theme) (l : GraphLayout Float32) : List Node → List Element
  | [] => []
  | ⟨id, _, _, _, some children, _⟩ :: rest =>
    diagram (l.nodeAt id).renderedId (l.nodeAt id).renderedId
        (children.drawnPlane theme (l.innerAt id)) ::
      (children.drawnDiagrams theme (l.innerAt id) ++ drawnNodeDiagrams theme l rest)
  | ⟨_, _, _, _, none, _⟩ :: rest => drawnNodeDiagrams theme l rest

end

/-- The diagrams of a node and of what is inside it. -/
def Node.drawnDiagrams (theme : Theme) (l : GraphLayout Float32) (n : Node) : List Element :=
  match n.children with
  | some inner =>
    diagram (l.nodeAt n.id).renderedId (l.nodeAt n.id).renderedId
        (inner.drawnPlane theme (l.innerAt n.id)) ::
      inner.drawnDiagrams theme (l.innerAt n.id)
  | none => []

theorem drawnDiagrams_eq (theme : Theme) (l : GraphLayout Float32) (g : Graph) :
    g.drawnDiagrams theme l = g.nodes.flatMap (Node.drawnDiagrams theme l) := by
  obtain ⟨name, nodes, flows⟩ := g
  rw [Graph.drawnDiagrams]
  induction nodes with
  | nil => rfl
  | cons n rest ih =>
    obtain ⟨id, kind, label, lane, children, loops⟩ := n
    cases children <;> simp [drawnNodeDiagrams, Node.drawnDiagrams, ih]

/-- The root of a document with the given pool. -/
def Document.drawnRoot (theme : Theme) (info : Meta) (g : Graph) (l : GraphLayout Float32)
    (pool : Box Float32) : Element :=
  .block "bpmn:definitions" (rootAttributes theme info)
    ([collaboration g.name, process g.name l.lanes (g.drawnElements l),
      mainDiagram theme pool l.lanes (g.drawnPlane theme l)] ++ g.drawnDiagrams theme l)

/-! ## No look-up fails -/

section
variable {α : Type} [Inhabited α] {g : Graph} {l : GraphLayout α}

theorem flowElement_eq_drawn (h : Fits g l) {f : Flow} (hf : f ∈ g.flows) :
    l.flowElement f = .ok (l.drawnFlow f) := by
  rw [GraphLayout.flowElement, h.requireNode_eq (h.source_mem hf),
    h.requireNode_eq (h.target_mem hf), (h.requireEdge_eq hf).1]
  rfl

/-- **The elements of a graph** if the layout fits. -/
theorem elements_eq_drawn (h : Fits g l) : g.elements l = .ok (g.drawnElements l) := by
  induction g using Graph.levels_induction generalizing l with
  | step g ih =>
    have hnodes : g.nodes.mapM (Node.element l (l.drawnRefs g.flows)) =
        .ok (g.nodes.map (Node.drawnElement l (l.drawnRefs g.flows))) := by
      refine mapM_eq_ok_map fun n hn => ?_
      have hinside : n.inside l = .ok (n.drawnInside l) := by
        unfold Node.inside Node.drawnInside
        cases hinner : n.children with
        | none => rfl
        | some inner =>
          obtain ⟨hk, hfits⟩ := h.requireNested_eq hn hinner
          dsimp only
          rw [hk]
          exact ih n hn inner hinner hfits
      rw [Node.element, h.requireNode_eq (id_mem_nodeIds hn), hinside]
      rfl
    have hflows : g.flows.mapM l.flowElement = .ok (g.flows.map l.drawnFlow) :=
      mapM_eq_ok_map fun f hf => flowElement_eq_drawn h hf
    rw [elements_eq, flowRefs_eq_drawn h, drawnElements_eq]
    simp only [bind, Except.bind, hnodes, hflows, pure, Except.pure]

end

section
variable {theme : Theme} {g : Graph} {l : GraphLayout Float32}

theorem edgeElement_eq_drawn (h : Fits g l) {f : Flow} (hf : f ∈ g.flows) :
    l.edgeElement f = .ok (l.edgeAt f.id).drawn := by
  obtain ⟨he, hlength⟩ := h.requireEdge_eq hf
  rw [GraphLayout.edgeElement, he]
  simp only [bind, Except.bind, if_neg (Nat.not_lt.2 hlength)]
  rfl

/-- **The shapes and edges of a graph** if the layout fits. -/
theorem planeContents_eq_drawn (h : Fits g l) :
    g.planeContents theme l = .ok (g.drawnPlane theme l) := by
  have hshapes : (g.nodes.mapM fun n => do return (← l.requireNode n.id).shape theme n) =
      .ok (g.nodes.map fun n => (l.nodeAt n.id).shape theme n) := by
    refine mapM_eq_ok_map fun n hn => ?_
    rw [h.requireNode_eq (id_mem_nodeIds hn)]
    rfl
  have hedges : g.flows.mapM l.edgeElement = .ok (g.flows.map fun f => (l.edgeAt f.id).drawn) :=
    mapM_eq_ok_map fun f hf => edgeElement_eq_drawn h hf
  rw [Graph.planeContents, hshapes, hedges]
  rfl

/-- **The diagrams of sub-processes** if the layout fits. -/
theorem innerDiagrams_eq_drawn (h : Fits g l) :
    g.innerDiagrams theme l = .ok (g.drawnDiagrams theme l) := by
  induction g using Graph.levels_induction generalizing l with
  | step g ih =>
    have hnodes : g.nodes.mapM (Node.diagrams theme l) =
        .ok (g.nodes.map (Node.drawnDiagrams theme l)) := by
      refine mapM_eq_ok_map fun n hn => ?_
      unfold Node.diagrams Node.drawnDiagrams
      cases hinner : n.children with
      | none => rfl
      | some inner =>
        obtain ⟨hk, hfits⟩ := h.requireNested_eq hn hinner
        dsimp only
        rw [h.requireNode_eq (id_mem_nodeIds hn), hk]
        simp only [bind, Except.bind, planeContents_eq_drawn hfits, ih n hn inner hinner hfits]
        rfl
    rw [innerDiagrams_eq, hnodes, drawnDiagrams_eq, List.flatMap_def]
    rfl

/-- **The root of a document** if the layout fits, holds nothing else and has a
    pool. -/
theorem root_eq_drawn (h : Fits g l) (hstrays : g.checkStrays l = .ok ()) {pool : Box Float32}
    (hpool : l.pool = some pool) (info : Document.Meta) :
    Document.root theme info g l = .ok (Document.drawnRoot theme info g l pool) := by
  rw [Document.root, hpool]
  simp only [hstrays, elements_eq_drawn h, planeContents_eq_drawn h, innerDiagrams_eq_drawn h,
    bind, Except.bind]
  rfl

end

end Swimlane
