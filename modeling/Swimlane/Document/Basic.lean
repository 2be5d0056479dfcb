/-
  Swimlane — documents.

  `Document.root` is the element tree of a process and its layout:
  collaboration, process and diagrams.  It fails when the layout has no pool,
  when it holds something that the graph does not have, or when it lacks
  something that the graph has.
-/
import Swimlane.Document.Diagram
import Swimlane.Document.Stray

namespace Swimlane.Document

open Xml (Element Attribute)

/-- Who wrote the document. -/
structure Meta where
  exporter : String := "bpmn-drafter"
  exporterVersion : String := "0.1.0"
  deriving DecidableEq, Repr

/-! ## Names -/

/-- The namespaces of every document. -/
def namespaces : List Attribute :=
  [("xmlns:bpmn", "http://www.omg.org/spec/BPMN/20100524/MODEL"),
   ("xmlns:bpmndi", "http://www.omg.org/spec/BPMN/20100524/DI"),
   ("xmlns:dc", "http://www.omg.org/spec/DD/20100524/DC"),
   ("xmlns:di", "http://www.omg.org/spec/DD/20100524/DI")]

/-- The namespace of colours, only in documents with colours. -/
def colorNamespace : Attribute :=
  ("xmlns:color", "http://www.omg.org/spec/BPMN/non-normative/color/1.0")

def collaborationId : String := "Collaboration_1"

def participantId : String := "Participant_1"

def processId : String := "Process_1"

/-! ## Parts -/

/-- The collaboration with its only pool. -/
def collaboration (name : String) : Element :=
  .block "bpmn:collaboration" [("id", collaborationId)]
    [.leaf "bpmn:participant"
      [("id", participantId), ("name", name), ("processRef", processId)]]

/-- A lane and the nodes in it. -/
def laneElement (b : LaneBand Float32) : Element :=
  .block "bpmn:lane" [("id", b.lane.elementId), ("name", b.lane.displayName)]
    (b.members.map fun id => .text "bpmn:flowNodeRef" id)

/-- The process with its lanes and elements. -/
def process (name : String) (lanes : List (LaneBand Float32)) (elements : List Element) : Element :=
  .block "bpmn:process" [("id", processId), ("name", name), ("isExecutable", "false")]
    (.block "bpmn:laneSet" [("id", "LaneSet_1")] (lanes.map laneElement) :: elements)

/-- The diagram of the pool. -/
def mainDiagram (theme : Theme) (pool : Box Float32) (lanes : List (LaneBand Float32))
    (contents : List Element) : Element :=
  diagram "1" collaborationId
    (shape participantId [horizontal] pool :: (lanes.map (LaneBand.shape theme) ++ contents))

def rootAttributes (theme : Theme) (info : Meta) : List Attribute :=
  namespaces ++ (if theme.usesColor then [colorNamespace] else []) ++
    [("id", "Definitions_1"), ("targetNamespace", "http://bpmn.io/schema/bpmn"),
     ("exporter", info.exporter), ("exporterVersion", info.exporterVersion)]

/-! ## The document -/

/-- The root of the document of a process and its layout. -/
def root (theme : Theme) (info : Meta) (g : Graph) (l : GraphLayout Float32) :
    Except Defect Element := do
  match l.pool with
  | none => .error .noPool
  | some pool =>
    g.checkStrays l
    let elements ← g.elements l
    let contents ← g.planeContents theme l
    let inner ← g.innerDiagrams theme l
    return .block "bpmn:definitions" (rootAttributes theme info)
      ([collaboration g.name, process g.name l.lanes elements,
        mainDiagram theme pool l.lanes contents] ++ inner)

/-- The text of the document of a process and its layout. -/
def render (theme : Theme) (info : Meta) (g : Graph) (l : GraphLayout Float32) :
    Except Defect String :=
  (root theme info g l).map Xml.documentText

/-- A layout without a pool is refused. -/
theorem render_of_noPool {theme : Theme} {info : Meta} {g : Graph} {l : GraphLayout Float32}
    (h : l.pool = none) : render theme info g l = .error .noPool := by
  simp [render, root, h, Except.map]

end Swimlane.Document
