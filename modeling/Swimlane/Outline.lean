/-
  Swimlane — layout listings.

  An `Outline` lists a layout together with the graph it was computed for: the
  nodes in traversal order, each with its label and box, sub-processes with
  their own listing, then the flows.  What the layout does not place, or the
  graph does not contain, is left out.

  `Outline.toJson` is the listing as JSON.
-/
import Swimlane.Json.Basic
import Swimlane.Layout.Basic

namespace Swimlane

/-! ## Listings -/

/-- A flow in a listing. -/
structure OutlineEdge (α : Type) where
  id : String
  renderedId : String
  source : String
  target : String
  label : Option String
  points : List (Point α)

mutual

/-- The listing of a layout. -/
structure Outline (α : Type) where
  name : String
  rows : Nat
  columns : Nat
  width : α
  height : α
  pool : Option (Box α)
  lanes : List (LaneBand α)
  nodes : List (OutlineNode α)
  edges : List (OutlineEdge α)

/-- A node in a listing. -/
structure OutlineNode (α : Type) where
  id : String
  renderedId : String
  kind : NodeKind
  label : String
  lane : Option Lane
  row : Nat
  column : Nat
  box : Box α
  nested : Option (Outline α)

end

section
variable {α : Type}

/-- The flows of a graph that the layout routes. -/
def GraphLayout.outlineEdges (l : GraphLayout α) (flows : List Flow) : List (OutlineEdge α) :=
  flows.filterMap fun f => (l.edge? f.id).map fun e =>
    { id := f.id, renderedId := e.renderedId, source := f.source, target := f.target
      label := f.label, points := e.points }

/-- The entry of a node. -/
def Placement.outlineNode (p : Placement α) (n : Node) (nested : Option (Outline α)) :
    OutlineNode α where
  id := n.id
  renderedId := p.renderedId
  kind := n.kind
  label := n.label
  lane := p.lane
  row := p.row
  column := p.column
  box := p.box
  nested := nested

/-- The entries of the placed nodes `order`, given the nodes of the graph with the
    listings of their contents. -/
def GraphLayout.outlineNodes (l : GraphLayout α) (nodes : List (Node × Option (Outline α))) :
    List (OutlineNode α) :=
  l.order.filterMap fun id =>
    match l.node? id, nodes.find? fun n => n.1.id = id with
    | some p, some (n, nested) => some (p.outlineNode n nested)
    | _, _ => none

mutual

/-- The listing of a layout and its graph. -/
def Outline.of (l : GraphLayout α) : Graph → Outline α
  | ⟨name, nodes, flows⟩ =>
    { name
      rows := l.rows
      columns := l.columns
      width := l.width
      height := l.height
      pool := l.pool
      lanes := l.lanes
      nodes := l.outlineNodes (outlineContents l nodes)
      edges := l.outlineEdges flows }

/-- The nodes with the listings of their contents. -/
def outlineContents (l : GraphLayout α) : List Node → List (Node × Option (Outline α))
  | [] => []
  | ⟨id, kind, label, lane, some children, loops⟩ :: rest =>
    (⟨id, kind, label, lane, some children, loops⟩,
      match l.nested? id with
      | some inner => some (Outline.of inner children)
      | none => none) :: outlineContents l rest
  | ⟨id, kind, label, lane, none, loops⟩ :: rest =>
    (⟨id, kind, label, lane, none, loops⟩, none) :: outlineContents l rest

end

/-! ## Listings as JSON -/

/-- A box as JSON. -/
def Box.toJson (number : α → Json) (b : Box α) : Json :=
  .obj [("x", number b.x), ("y", number b.y), ("width", number b.width),
    ("height", number b.height)]

/-- A point as JSON. -/
def Point.toJson (number : α → Json) (p : Point α) : Json := .arr [number p.x, number p.y]

/-- A lane as JSON. -/
def LaneBand.toJson (number : α → Json) (b : LaneBand α) : Json :=
  .obj [("id", .str b.lane.elementId), ("name", .str b.lane.displayName),
    ("bounds", b.bounds.toJson number), ("members", Json.ofStrings b.members)]

/-- A flow as JSON. -/
def OutlineEdge.toJson (number : α → Json) (e : OutlineEdge α) : Json :=
  .obj [("id", .str e.id), ("renderedId", .str e.renderedId), ("from", .str e.source),
    ("to", .str e.target), ("label", Json.orNull (e.label.map .str)),
    ("points", .arr (e.points.map (Point.toJson number)))]

mutual

/-- A listing as JSON. -/
def Outline.toJson (number : α → Json) : Outline α → Json
  | ⟨name, rows, columns, width, height, pool, lanes, nodes, edges⟩ =>
    .obj ([("processName", .str name), ("rows", .ofNat rows), ("columns", .ofNat columns),
      ("width", number width), ("height", number height)] ++
      Json.optionalField "pool" (pool.map (Box.toJson number)) ++
      [("lanes", .arr (lanes.map (LaneBand.toJson number))),
        ("nodes", .arr (outlineNodesToJson number nodes)),
        ("edges", .arr (edges.map (OutlineEdge.toJson number)))])

/-- The nodes of a listing as JSON. -/
def outlineNodesToJson (number : α → Json) : List (OutlineNode α) → List Json
  | [] => []
  | ⟨id, renderedId, kind, label, lane, row, column, box, nested⟩ :: rest =>
    .obj ([("id", .str id), ("renderedId", .str renderedId), ("kind", .str kind.title),
      ("label", .str label), ("lane", Json.orNull (lane.map fun l => .str l.title)),
      ("row", .ofNat row), ("column", .ofNat column), ("x", number box.x), ("y", number box.y),
      ("width", number box.width), ("height", number box.height)] ++
      Json.optionalField "nested"
        (match nested with
        | some inner => some (inner.toJson number)
        | none => none)) ::
      outlineNodesToJson number rest

end

end

end Swimlane
