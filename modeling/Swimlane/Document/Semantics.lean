/-
  Swimlane — the process part of a document.

  Every node becomes an element that names the flows which enter and leave it;
  a sub-process holds its contents.  The flows follow the nodes.
-/
import Swimlane.Document.Defect
import Swimlane.Layout.Basic
import Swimlane.Xml.Element

namespace Swimlane

open Xml (Element)

section
variable {α : Type}

/-! ## Looking up -/

/-- Where a node stands; it has to stand somewhere. -/
def GraphLayout.requireNode (l : GraphLayout α) (id : String) : Except Defect (Placement α) :=
  match l.node? id with
  | some p => .ok p
  | none => .error (.missingNode id)

/-- How a flow runs; it has to run somehow. -/
def GraphLayout.requireEdge (l : GraphLayout α) (id : String) : Except Defect (EdgeRoute α) :=
  match l.edge? id with
  | some e => .ok e
  | none => .error (.missingFlow id)

/-- The layout of a sub-process; it has to have one. -/
def GraphLayout.requireNested (l : GraphLayout α) (id : String) :
    Except Defect (GraphLayout α) :=
  match l.nested? id with
  | some inner => .ok inner
  | none => .error (.missingNested id)

/-! ## Elements -/

/-- A flow with its identifier in the document. -/
abbrev FlowRef := Flow × String

/-- The flows with their identifiers in the document. -/
def GraphLayout.flowRefs (l : GraphLayout α) (flows : List Flow) : Except Defect (List FlowRef) :=
  flows.mapM fun f => do return (f, (← l.requireEdge f.id).renderedId)

/-- The element of a node, given the elements of its contents. -/
def Placement.element (p : Placement α) (id label : String) (loops : Bool) (refs : List FlowRef)
    (contents : List Element) : Element :=
  let entering := refs.filter fun r => r.1.target = id
  let leaving := refs.filter fun r => r.1.source = id
  .block p.tag [("id", p.renderedId), ("name", label)]
    (entering.map (fun r => .text "bpmn:incoming" r.2) ++
      leaving.map (fun r => .text "bpmn:outgoing" r.2) ++
      (if loops then [.leaf "bpmn:standardLoopCharacteristics" []] else []) ++ contents)

def GraphLayout.flowElement (l : GraphLayout α) (f : Flow) : Except Defect Element := do
  let source ← l.requireNode f.source
  let target ← l.requireNode f.target
  let edge ← l.requireEdge f.id
  return .leaf "bpmn:sequenceFlow"
    ([("id", edge.renderedId), ("sourceRef", source.renderedId),
      ("targetRef", target.renderedId)] ++
      match f.label with
      | some label => [("name", label)]
      | none => [])

mutual

/-- The elements of a graph: its nodes, then its flows. -/
def Graph.elements (l : GraphLayout α) : Graph → Except Defect (List Element)
  | ⟨_, nodes, flows⟩ => do
    let refs ← l.flowRefs flows
    let nodeElements ← nodeElements l refs nodes
    let flowElements ← flows.mapM l.flowElement
    return nodeElements ++ flowElements

/-- The elements of nodes. -/
def nodeElements (l : GraphLayout α) (refs : List FlowRef) :
    List Node → Except Defect (List Element)
  | [] => .ok []
  | ⟨id, _, label, _, some children, loops⟩ :: rest => do
    let p ← l.requireNode id
    let inner ← l.requireNested id
    let contents ← children.elements inner
    let elements ← nodeElements l refs rest
    return p.element id label loops refs contents :: elements
  | ⟨id, _, label, _, none, loops⟩ :: rest => do
    let p ← l.requireNode id
    let elements ← nodeElements l refs rest
    return p.element id label loops refs [] :: elements

end

end

end Swimlane
