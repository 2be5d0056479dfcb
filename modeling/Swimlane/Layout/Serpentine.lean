/-
  Swimlane — the serpentine grid.

  The nodes of a graph are placed one after the other in the cells of a grid of
  one to three rows, the first row from left to right, the next one back, and
  so on.  The grid of the whole process stands in a pool with a band for each
  lane; a node stands in the band of its lane.  The grid of a sub-process is a
  single band.

  * `rowCount`, `columnCount`, `cell`: the grid for a number of nodes.
  * `Graph.layout`: the layout of a process, with those of its sub-processes.
  * `cell_lt`: every cell lies inside the grid.
-/
import Swimlane.Layout.Basic
import Swimlane.Layout.Traversal
import Swimlane.Layout.LaneFill

namespace Swimlane

/-! ## Cells -/

/-- The number of rows for a number of nodes. -/
def rowCount (nodes : Nat) : Nat := if nodes ≤ 5 then 1 else if nodes ≤ 10 then 2 else 3

/-- The number of columns for a number of nodes. -/
def columnCount (nodes : Nat) : Nat := (nodes + rowCount nodes - 1) / rowCount nodes

/-- Row and column of the `index`-th node. -/
def cell (columns index : Nat) : Nat × Nat :=
  let row := index / columns
  let offset := index % columns
  (row, if row % 2 = 1 then columns - 1 - offset else offset)

theorem rowCount_pos (nodes : Nat) : 0 < rowCount nodes := by
  unfold rowCount
  split
  · decide
  · split <;> decide

/-- The rows and columns hold all nodes. -/
theorem le_rows_mul_columns (nodes : Nat) : nodes ≤ rowCount nodes * columnCount nodes := by
  have hpos := rowCount_pos nodes
  have hdiv := Nat.div_add_mod (nodes + rowCount nodes - 1) (rowCount nodes)
  have hmod := Nat.mod_lt (nodes + rowCount nodes - 1) hpos
  unfold columnCount
  omega

/-- **Every cell lies inside the grid.** -/
theorem cell_lt {nodes index : Nat} (h : index < nodes) :
    (cell (columnCount nodes) index).1 < rowCount nodes ∧
      (cell (columnCount nodes) index).2 < columnCount nodes := by
  have hle := le_rows_mul_columns nodes
  have hcols : 0 < columnCount nodes := by
    rcases Nat.eq_zero_or_pos (columnCount nodes) with h0 | h0
    · rw [h0] at hle
      omega
    · exact h0
  have hmod := Nat.mod_lt index hcols
  constructor
  · exact Nat.div_lt_of_lt_mul (by rw [Nat.mul_comm]; omega)
  · unfold cell
    dsimp only
    split <;> omega

/-! ## Placing -/

/-- How a graph is drawn. -/
inductive Banding where
  /-- In a pool with a band for each lane. -/
  | lanes
  /-- In one band, without a pool. -/
  | single
  deriving DecidableEq, Repr

section
variable {α : Type} [Scalar α]

def Grid.bandHeight (grid : Grid α) (rows : Nat) : α := Scalar.ofNat (max rows 1) * grid.rowHeight

/-- Where the grid begins; the header of the pool stands before it. -/
def Grid.contentX (grid : Grid α) : Banding → α
  | .lanes => grid.originX + grid.poolHeaderWidth
  | .single => grid.originX

def Grid.contentWidth (grid : Grid α) (columns : Nat) : α :=
  Scalar.ofNat 2 * grid.lanePaddingX + Scalar.ofNat (columns - 1) * grid.columnPitch +
    grid.slotWidth

/-- The upper side of the band of a lane; without lanes it is the first
    band. -/
def Grid.bandTop (grid : Grid α) (rows : Nat) (lane : Option Lane) : α :=
  grid.originY + Scalar.ofNat ((lane.map Lane.index).getD 0) * grid.bandHeight rows

/-- The box of a node, in the middle of its cell. -/
def Grid.nodeBox (grid : Grid α) (banding : Banding) (rows : Nat) (lane : Option Lane)
    (row column : Nat) (kind : NodeKind) : Box α :=
  let width := Scalar.ofNat kind.width
  let height := Scalar.ofNat kind.height
  let slotX := grid.contentX banding + grid.lanePaddingX + Scalar.ofNat column * grid.columnPitch
  { x := slotX + Scalar.half (grid.slotWidth - width)
    y := grid.bandTop rows lane + Scalar.ofNat row * grid.rowHeight +
      Scalar.half (grid.rowHeight - height)
    width
    height }

/-- The lane in which a node is drawn. -/
def Graph.drawnLane? (g : Graph) : Banding → String → Option Lane
  | .lanes, id => g.laneOf? id
  | .single, _ => none

/-- Where the `index`-th of `count` nodes stands. -/
def Node.place (grid : Grid α) (banding : Banding) (stem : String) (count index : Nat)
    (lane : Option Lane) (n : Node) : Placement α :=
  let rc := cell (columnCount count) index
  { renderedId := stem ++ n.kind.idStem ++ "_" ++ toString (index + 1)
    tag := n.kind.tag
    lane
    order := index
    row := rc.1
    column := rc.2
    box := grid.nodeBox banding (rowCount count) lane rc.1 rc.2 n.kind }

/-- The table of the nodes `ids`, the first of which is the `index`-th. -/
def Graph.placeFrom (grid : Grid α) (banding : Banding) (stem : String) (g : Graph) (count : Nat) :
    Nat → List String → List (String × Placement α)
  | _, [] => []
  | index, id :: ids =>
    let rest := g.placeFrom grid banding stem count (index + 1) ids
    match g.node? id with
    | some n => Keyed.insert id (n.place grid banding stem count index (g.drawnLane? banding id)) rest
    | none => rest

def Graph.placements (grid : Grid α) (banding : Banding) (stem : String) (g : Graph) :
    List (String × Placement α) :=
  g.placeFrom grid banding stem g.traversal.length 0 g.traversal

/-! ## Flows and lanes -/

/-- The routes of the flows, the first of which is the `index`-th.  A flow
    without two placed ends has none. -/
def routesFrom (tolerance : α) (stem : String) (nodes : List (String × Placement α)) :
    Nat → List Flow → List (EdgeRoute α)
  | _, [] => []
  | index, f :: rest =>
    let routes := routesFrom tolerance stem nodes (index + 1) rest
    match Keyed.get? f.source nodes, Keyed.get? f.target nodes with
    | some source, some target =>
      { flowId := f.id
        renderedId := stem ++ "Flow_" ++ toString (index + 1)
        source := f.source
        target := f.target
        points := source.box.route target.box tolerance } :: routes
    | _, _ => routes

/-- The document identifiers of the nodes of a lane, in traversal order. -/
def Graph.laneMembers (g : Graph) (nodes : List (String × Placement α)) (lane : Lane) :
    List String :=
  (g.traversal.filter fun id => g.laneOf? id = some lane).filterMap fun id =>
    (Keyed.get? id nodes).map Placement.renderedId

def Graph.laneBands (grid : Grid α) (g : Graph) (rows columns : Nat)
    (nodes : List (String × Placement α)) : List (LaneBand α) :=
  Lane.all.map fun lane =>
    { lane
      bounds :=
        { x := grid.contentX .lanes
          y := grid.bandTop rows (some lane)
          width := grid.contentWidth columns
          height := grid.bandHeight rows }
      members := g.laneMembers nodes lane }

/-- The pool around the lanes. -/
def Grid.pool (grid : Grid α) (rows columns : Nat) : Box α where
  x := grid.originX
  y := grid.originY
  width := grid.poolHeaderWidth + grid.contentWidth columns
  height := Scalar.ofNat Lane.all.length * grid.bandHeight rows

/-! ## Layouts -/

/-- The layout of the graph itself, given those of its sub-processes. -/
def Graph.layoutAround (grid : Grid α) (banding : Banding) (stem : String) (g : Graph)
    (nodes : List (String × Placement α)) (nested : List (String × GraphLayout α)) :
    GraphLayout α :=
  let order := g.traversal
  let rows := rowCount order.length
  let columns := columnCount order.length
  let edges := routesFrom grid.routeTolerance stem nodes 0 g.flows
  match banding with
  | .lanes =>
    let pool := grid.pool rows columns
    { order, rows, columns, nodes, edges, nested
      lanes := g.laneBands grid rows columns nodes
      pool := some pool
      width := pool.width
      height := pool.height }
  | .single =>
    { order, rows, columns, nodes, edges, nested
      lanes := []
      pool := none
      width := grid.contentWidth columns
      height := grid.bandHeight rows }

mutual

/-- The layout of a graph.  Document identifiers begin with the stem. -/
def Graph.layoutWith (grid : Grid α) (banding : Banding) (stem : String) :
    Graph → GraphLayout α
  | ⟨name, nodes, flows⟩ =>
    let placed := Graph.placements grid banding stem ⟨name, nodes, flows⟩
    Graph.layoutAround grid banding stem ⟨name, nodes, flows⟩ placed
      (nestedLayouts grid placed [] nodes)

/-- The table of the layouts of sub-processes, added to `table`.  Of several
    nodes with one identifier the last one counts. -/
def nestedLayouts (grid : Grid α) (placed : List (String × Placement α))
    (table : List (String × GraphLayout α)) : List Node → List (String × GraphLayout α)
  | [] => table
  | ⟨id, _, _, _, some children, _⟩ :: rest =>
    match Keyed.get? id placed with
    | some placement =>
      let inner := children.layoutWith grid .single (placement.renderedId ++ "_")
      nestedLayouts grid placed (Keyed.insert id inner table) rest
    | none => nestedLayouts grid placed table rest
  | ⟨_, _, _, _, none, _⟩ :: rest => nestedLayouts grid placed table rest

end

def Graph.layout (grid : Grid α) (g : Graph) : GraphLayout α := g.layoutWith grid .lanes ""

end

end Swimlane
