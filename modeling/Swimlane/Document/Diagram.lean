/-
  Swimlane — the diagram part of a document.

  A plane holds a shape for each node and an edge for each flow.  The first
  plane shows the pool with its lanes; every sub-process, at any depth, has a
  diagram of its own.
-/
import Swimlane.Document.Coordinate
import Swimlane.Document.Semantics
import Swimlane.Theme

namespace Swimlane

open Xml (Element Attribute)

/-! ## Shapes and edges -/

def Box.element (b : Box Float32) : Element :=
  .leaf "dc:Bounds"
    [("x", Document.coordinate b.x), ("y", Document.coordinate b.y),
      ("width", Document.coordinate b.width), ("height", Document.coordinate b.height)]

/-- A shape that shows an element of the process. -/
def shape (elementId : String) (attributes : List Attribute) (b : Box Float32) : Element :=
  .block "bpmndi:BPMNShape" ([("id", elementId ++ "_di"), ("bpmnElement", elementId)] ++ attributes)
    [b.element]

def colorAttributes (fill stroke : String) : List Attribute :=
  [("color:background-color", fill), ("color:border-color", stroke)]

/-- The attribute of shapes that lie on their side. -/
def horizontal : Attribute := ("isHorizontal", "true")

def LaneBand.shape (theme : Theme) (b : LaneBand Float32) : Element :=
  Swimlane.shape b.lane.elementId
    (horizontal ::
      match theme.laneColor? b.lane with
      | some c => colorAttributes c.fill c.stroke
      | none => [])
    b.bounds

/-- The colours of a node: repeating sub-processes have the loop colour, framed
    in the colour of their lane. -/
def Placement.colors (theme : Theme) (p : Placement Float32) (loops : Bool) : List Attribute :=
  match loops, theme.loopFill with
  | true, some fill =>
    let stroke := match p.lane.bind theme.laneColor? with
      | some c => c.stroke
      | none => fill
    colorAttributes fill stroke
  | _, _ => []

/-- The shape of a node; a sub-process is drawn closed. -/
def Placement.shape (theme : Theme) (p : Placement Float32) (n : Node) : Element :=
  Swimlane.shape p.renderedId
    ((if n.kind = .subProcess then [("isExpanded", "false")] else []) ++ p.colors theme n.loops)
    p.box

/-- A point of an edge. -/
def Point.element (p : Point Float32) : Element :=
  .leaf "di:waypoint" [("x", Document.coordinate p.x), ("y", Document.coordinate p.y)]

/-- The edge of a flow; it needs two points at least. -/
def GraphLayout.edgeElement (l : GraphLayout Float32) (f : Flow) : Except Defect Element := do
  let edge ← l.requireEdge f.id
  if edge.points.length < 2 then .error (.fewPoints f.id)
  else
    return .block "bpmndi:BPMNEdge"
      [("id", edge.renderedId ++ "_di"), ("bpmnElement", edge.renderedId)]
      (edge.points.map Point.element)

/-- The shapes and edges of a graph. -/
def Graph.planeContents (theme : Theme) (l : GraphLayout Float32) (g : Graph) :
    Except Defect (List Element) := do
  let shapes ← g.nodes.mapM fun n => do return (← l.requireNode n.id).shape theme n
  let edges ← g.flows.mapM l.edgeElement
  return shapes ++ edges

/-! ## Diagrams -/

/-- A diagram of an element, with the given contents. -/
def diagram (suffix elementId : String) (contents : List Element) : Element :=
  .block "bpmndi:BPMNDiagram" [("id", "BPMNDiagram_" ++ suffix)]
    [.block "bpmndi:BPMNPlane" [("id", "BPMNPlane_" ++ suffix), ("bpmnElement", elementId)]
      contents]

mutual

/-- The diagrams of all sub-processes of a graph. -/
def Graph.innerDiagrams (theme : Theme) (l : GraphLayout Float32) :
    Graph → Except Defect (List Element)
  | ⟨_, nodes, _⟩ => nodeDiagrams theme l nodes

/-- The diagrams of the sub-processes in a list of nodes. -/
def nodeDiagrams (theme : Theme) (l : GraphLayout Float32) :
    List Node → Except Defect (List Element)
  | [] => .ok []
  | ⟨id, _, _, _, some children, _⟩ :: rest => do
    let p ← l.requireNode id
    let inner ← l.requireNested id
    let contents ← children.planeContents theme inner
    let deeper ← children.innerDiagrams theme inner
    let others ← nodeDiagrams theme l rest
    return diagram p.renderedId p.renderedId contents :: (deeper ++ others)
  | ⟨_, _, _, _, none, _⟩ :: rest => nodeDiagrams theme l rest

end

end Swimlane
