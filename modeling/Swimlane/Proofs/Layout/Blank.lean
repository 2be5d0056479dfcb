/-
  Swimlane — texts and layouts.

  The layout of a graph does not depend on its texts: the graph with empty texts
  is laid out the same.

  * `Graph.blank`: the graph with empty texts, on all levels.
  * `traversal_blank`, `laneOf?_blank`: order and lanes of the nodes stay.
  * `layoutWith_blank`: so does the layout.
-/
import Swimlane.Proofs.Layout.Coverage

namespace Swimlane

/-! ## Empty texts -/

/-- The flow with an empty label, if it has one. -/
def Flow.blank (f : Flow) : Flow := { f with label := f.label.map fun _ => "" }

mutual

/-- The graph with empty texts. -/
def Graph.blank : Graph → Graph
  | ⟨_, nodes, flows⟩ => ⟨"", blankNodes nodes, flows.map Flow.blank⟩

/-- The nodes with empty texts. -/
def blankNodes : List Node → List Node
  | [] => []
  | ⟨id, kind, _, lane, some children, loops⟩ :: rest =>
    ⟨id, kind, "", lane, some children.blank, loops⟩ :: blankNodes rest
  | ⟨id, kind, _, lane, none, loops⟩ :: rest => ⟨id, kind, "", lane, none, loops⟩ :: blankNodes rest

end

/-- The node with empty texts. -/
def Node.blank (n : Node) : Node :=
  { n with label := "", children := n.children.map Graph.blank }

namespace Graph

theorem blankNodes_eq_map (nodes : List Node) : blankNodes nodes = nodes.map Node.blank := by
  induction nodes with
  | nil => rfl
  | cons n rest ih =>
    obtain ⟨id, kind, label, lane, children, loops⟩ := n
    cases children <;> simp [blankNodes, Node.blank, ih]

@[simp] theorem blank_nodes (g : Graph) : g.blank.nodes = g.nodes.map Node.blank := by
  obtain ⟨name, nodes, flows⟩ := g
  rw [blank, blankNodes_eq_map]

@[simp] theorem blank_flows (g : Graph) : g.blank.flows = g.flows.map Flow.blank := by
  cases g
  rw [blank]

@[simp] theorem blank_name (g : Graph) : g.blank.name = "" := by
  cases g
  rw [blank]

/-! ## Order and lanes -/

@[simp] theorem nodeIds_blank (g : Graph) : g.blank.nodeIds = g.nodeIds := by
  rw [nodeIds, blank_nodes, List.map_map]
  rfl

@[simp] theorem flowIds_blank (g : Graph) : g.blank.flowIds = g.flowIds := by
  rw [flowIds, blank_flows, List.map_map]
  rfl

@[simp] theorem node?_blank (g : Graph) (id : String) :
    g.blank.node? id = (g.node? id).map Node.blank := by
  rw [node?, blank_nodes, List.find?_map]
  rfl

theorem start?_blank (g : Graph) : g.blank.start? = g.start?.map Node.blank := by
  rw [start?, blank_nodes, List.find?_map]
  rfl

theorem successors_blank (g : Graph) : g.blank.successors = g.successors := by
  funext id
  have hout : g.blank.outgoing id = (g.outgoing id).map Flow.blank := by
    rw [outgoing, blank_flows, List.filter_map]
    rfl
  rw [successors, hout, successors]
  rw [← List.map_mergeSort (r := fun a b => textLe a.id b.id), List.map_map]
  · rfl
  · intro a ha b hb
    rfl

@[simp] theorem traversal_blank (g : Graph) : g.blank.traversal = g.traversal := by
  have hreached : g.blank.reached = g.reached := by
    rw [reached, start?_blank, nodeIds_blank, successors_blank, reached]
    cases g.start? <;> rfl
  rw [traversal, unreached, hreached, nodeIds_blank]
  rfl

theorem ownLane?_blank (g : Graph) : g.blank.ownLane? = g.ownLane? := by
  funext id
  rw [ownLane?, blank_nodes, ← List.map_reverse, List.findSome?_map]
  rfl

@[simp] theorem laneOf?_blank (g : Graph) (id : String) : g.blank.laneOf? id = g.laneOf? id := by
  have hneighbour : ∀ id f, g.blank.neighbourLane? id (Flow.blank f) = g.neighbourLane? id f := by
    intro id f
    rw [neighbourLane?, ownLane?_blank]
    rfl
  have hborrowed : g.blank.borrowedLane = g.borrowedLane := by
    funext id
    simp only [borrowedLane, blank_flows, List.filterMap_map, Function.comp_def, hneighbour]
  have hlane : ∀ n, g.blank.laneOfNode (Node.blank n) = g.laneOfNode n := by
    intro n
    rw [laneOfNode, hborrowed]
    rfl
  rw [laneOf?, blank_nodes, ← List.map_reverse, List.find?_map, Option.map_map]
  simp only [Function.comp_def, hlane]
  rfl

theorem drawnLane?_blank (g : Graph) (banding : Banding) (id : String) :
    g.blank.drawnLane? banding id = g.drawnLane? banding id := by
  cases banding with
  | lanes => exact g.laneOf?_blank id
  | single => rfl

end Graph

/-! ## Layouts -/

section
variable {α : Type} [Scalar α] {grid : Grid α} {banding : Banding} {stem : String}

theorem placeFrom_blank (g : Graph) (count index : ℕ) (ids : List String) :
    g.blank.placeFrom grid banding stem count index ids =
      g.placeFrom grid banding stem count index ids := by
  induction ids generalizing index with
  | nil => rfl
  | cons id ids ih =>
    simp only [Graph.placeFrom, Graph.node?_blank, ih, Graph.drawnLane?_blank]
    cases g.node? id <;> rfl

@[simp] theorem placements_blank (g : Graph) :
    g.blank.placements grid banding stem = g.placements grid banding stem := by
  rw [Graph.placements, Graph.traversal_blank, placeFrom_blank, Graph.placements]

@[simp] theorem routesFrom_blank (tolerance : α) (nodes : List (String × Placement α)) (index : ℕ)
    (flows : List Flow) : routesFrom tolerance stem nodes index (flows.map Flow.blank) =
      routesFrom tolerance stem nodes index flows := by
  induction flows generalizing index with
  | nil => rfl
  | cons f rest ih =>
    rw [List.map_cons, routesFrom, routesFrom, ih]
    rfl

theorem layoutAround_blank (g : Graph) (nodes : List (String × Placement α))
    (nested : List (String × GraphLayout α)) :
    g.blank.layoutAround grid banding stem nodes nested =
      g.layoutAround grid banding stem nodes nested := by
  have hmembers : ∀ lane, g.blank.laneMembers nodes lane = g.laneMembers nodes lane := by
    intro lane
    simp only [Graph.laneMembers, Graph.traversal_blank, Graph.laneOf?_blank]
  simp only [Graph.layoutAround, Graph.laneBands, Graph.traversal_blank, Graph.blank_flows,
    routesFrom_blank, hmembers]

/-- The layouts of sub-processes stay, if those of their contents do. -/
theorem nestedLayouts_blank {placed : List (String × Placement α)}
    {table : List (String × GraphLayout α)} {nodes : List Node}
    (h : ∀ n ∈ nodes, ∀ inner, n.children = some inner → ∀ stem,
      inner.blank.layoutWith grid .single stem = inner.layoutWith grid .single stem) :
    nestedLayouts grid placed table (nodes.map Node.blank) =
      nestedLayouts grid placed table nodes := by
  induction nodes generalizing table with
  | nil => rfl
  | cons n rest ih =>
    obtain ⟨hn, hrest⟩ := List.forall_mem_cons.1 h
    rw [List.map_cons, nestedLayouts_cons, nestedLayouts_cons, ih hrest]
    congr 1
    cases hinner : n.children with
    | none => simp [Node.blank, hinner]
    | some inner =>
      simp only [Node.blank, hinner, Option.map_some]
      cases Keyed.get? n.id placed with
      | none => rfl
      | some p => simp only [hn inner hinner]

/-- **The layout of a graph does not depend on its texts.** -/
theorem layoutWith_blank (g : Graph) :
    g.blank.layoutWith grid banding stem = g.layoutWith grid banding stem := by
  induction g using Graph.levels_induction generalizing banding stem with
  | step g ih =>
    rw [layoutWith_eq, layoutWith_eq, placements_blank, Graph.blank_nodes, layoutAround_blank,
      nestedLayouts_blank fun n hn inner hinner _ => ih n hn inner hinner]

theorem layout_blank (grid : Grid α) (g : Graph) : g.blank.layout grid = g.layout grid :=
  layoutWith_blank g

end

/-! ## Linked graphs -/

open Swimlane.Graph (EachLevel Linked)

theorem linked_blank_iff (g : Graph) : Linked g.blank ↔ Linked g := by
  have hends : (∀ f ∈ g.blank.flows, f.source ∈ g.blank.nodeIds ∧ f.target ∈ g.blank.nodeIds) ↔
      ∀ f ∈ g.flows, f.source ∈ g.nodeIds ∧ f.target ∈ g.nodeIds := by
    rw [Graph.nodeIds_blank, Graph.blank_flows]
    exact List.forall_mem_map
  constructor
  · rintro ⟨hnodes, hflows, h⟩
    rw [Graph.nodeIds_blank] at hnodes
    rw [Graph.flowIds_blank] at hflows
    exact ⟨hnodes, hflows, hends.1 h⟩
  · rintro ⟨hnodes, hflows, h⟩
    rw [← Graph.nodeIds_blank] at hnodes
    rw [← Graph.flowIds_blank] at hflows
    exact ⟨hnodes, hflows, hends.2 h⟩

/-- **Whether a graph is linked does not depend on its texts.** -/
theorem eachLevel_linked_blank_iff (g : Graph) : EachLevel Linked g.blank ↔ EachLevel Linked g := by
  induction g using Graph.levels_induction with
  | step g ih =>
    constructor
    · intro h
      refine .intro ((linked_blank_iff g).1 h.here) fun n hn inner hinner => ?_
      have hblank : n.blank ∈ g.blank.nodes := by
        rw [Graph.blank_nodes]
        exact List.mem_map_of_mem hn
      exact (ih n hn inner hinner).1 (h.inside hblank (by rw [Node.blank, hinner]; rfl))
    · intro h
      refine .intro ((linked_blank_iff g).2 h.here) ?_
      rw [Graph.blank_nodes]
      refine List.forall_mem_map.2 fun n hn inner hinner => ?_
      obtain ⟨inner', hinner', rfl⟩ := Option.map_eq_some_iff.1 hinner
      exact (ih n hn inner' hinner').2 (h.inside hn hinner')

end Swimlane
