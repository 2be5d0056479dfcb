/-
  Swimlane — graphs listed in another order.

  A candidate may list its nodes and flows in any order.  Nodes in another order
  give the same layout.  Flows in another order may give nodes without a lane of
  their own another lane, if several lanes are equally frequent around them; what
  does not depend on lanes stays.

  * `traversal_of_perm`, `laneOf?_of_perm`: order and lanes of the nodes do not
    depend on how the nodes are listed; `layoutWith_of_perm`: nor does the layout.
  * `traversal_of_flows_perm`: the order of the nodes does not depend on how the
    flows are listed.  `GraphLayout.SameGrid`: what stays.
  * `layout_relisted`: both together.
-/
import Swimlane.Proofs.Layout.Lanes

namespace Swimlane

open Swimlane.Graph (node?_of_perm)

/-! ## Nodes in another order -/

section
variable {g : Graph} {nodes : List Node} (hperm : nodes.Perm g.nodes) (hids : g.nodeIds.Nodup)
include hperm hids

theorem nodeIds_nodup_of_perm : (Graph.nodeIds { g with nodes }).Nodup :=
  (hperm.map Node.id).nodup_iff.2 hids

theorem laneOf?_of_perm (id : String) : Graph.laneOf? { g with nodes } id = g.laneOf? id := by
  have hids' := nodeIds_nodup_of_perm hperm hids
  have hown : Graph.ownLane? { g with nodes } = g.ownLane? := by
    funext id
    rw [Graph.ownLane?_eq hids', Graph.ownLane?_eq hids, node?_of_perm hperm hids]
  have hneighbour : Graph.neighbourLane? { g with nodes } = g.neighbourLane? := by
    funext id f
    rw [Graph.neighbourLane?, hown, Graph.neighbourLane?]
  have hlane : Graph.laneOfNode { g with nodes } = g.laneOfNode := by
    funext n
    rw [Graph.laneOfNode, Graph.borrowedLane, hneighbour, Graph.laneOfNode, Graph.borrowedLane]
  rw [Graph.laneOf?_eq hids', Graph.laneOf?_eq hids, node?_of_perm hperm hids, hlane]

omit hids in
theorem traversal_of_perm (hstart : (g.nodes.filter fun n => n.kind = .start).length ≤ 1) :
    Graph.traversal { g with nodes } = g.traversal := by
  have hmem : ∀ id, id ∈ Graph.nodeIds { g with nodes } ↔ id ∈ g.nodeIds :=
    fun id => (hperm.map Node.id).mem_iff
  have hfound : Graph.start? { g with nodes } = g.start? := by
    refine find?_eq_of_perm hperm fun n hn m hm hnstart hmstart => ?_
    have hn' : n ∈ g.nodes.filter fun n => n.kind = .start :=
      List.mem_filter.2 ⟨hperm.mem_iff.1 hn, hnstart⟩
    have hm' : m ∈ g.nodes.filter fun n => n.kind = .start :=
      List.mem_filter.2 ⟨hperm.mem_iff.1 hm, hmstart⟩
    generalize g.nodes.filter (fun n => n.kind = .start) = starts at *
    match starts, hstart with
    | [_], _ => rw [List.mem_singleton.1 hn', List.mem_singleton.1 hm']
  have hreached : Graph.reached { g with nodes } = g.reached := by
    rw [Graph.reached, hfound, Graph.reached]
    cases g.start? with
    | none => rfl
    | some start => exact walk_congr _ hmem [start.id]
  have hunreached : Graph.unreached { g with nodes } = g.unreached := by
    rw [Graph.unreached, Graph.unreached, hreached]
    exact congrArg List.eraseDups (mergeSort_eq_of_perm ((hperm.map Node.id).filter _)
      fun _ _ _ _ heq => heq)
  rw [Graph.traversal, Graph.traversal, hreached, hunreached]

end

section
variable {α : Type} [Scalar α] {grid : Grid α} {banding : Banding} {stem : String} {g : Graph}

/-- The layout of a graph, at any level, with the nodes in another order. -/
theorem layoutWith_of_perm {nodes : List Node} (hperm : nodes.Perm g.nodes)
    (hids : g.nodeIds.Nodup) (hstart : (g.nodes.filter fun n => n.kind = .start).length ≤ 1) :
    Graph.layoutWith grid banding stem { g with nodes } = g.layoutWith grid banding stem := by
  have hids' := nodeIds_nodup_of_perm hperm hids
  have htraversal := traversal_of_perm hperm hstart
  have hnode := node?_of_perm hperm hids
  have hlane := laneOf?_of_perm hperm hids
  have hdrawn : ∀ id, Graph.drawnLane? { g with nodes } banding id = g.drawnLane? banding id := by
    intro id
    cases banding with
    | lanes => exact hlane id
    | single => rfl
  have hplaced : Graph.placements grid banding stem { g with nodes } =
      g.placements grid banding stem := by
    refine (ordered_placeFrom _ _ _ _).ext (ordered_placeFrom _ _ _ _) fun id => ?_
    refine (get?_placements_eq _ id).trans (.trans ?_ (get?_placements_eq g id).symm)
    rw [htraversal, hnode, hdrawn]
  have hnested : ∀ placed : List (String × Placement α),
      nestedLayouts grid placed [] nodes = nestedLayouts grid placed [] g.nodes := by
    intro placed
    refine (ordered_nestedLayouts Keyed.ordered_nil _).ext
      (ordered_nestedLayouts Keyed.ordered_nil _) fun id => ?_
    refine (get?_nestedLayouts_eq hids' placed id).trans ?_
    rw [get?_nestedLayouts_eq hids, hnode]
  have hmembers : ∀ placed : List (String × Placement α),
      Graph.laneMembers { g with nodes } placed = g.laneMembers placed := by
    intro placed
    funext lane
    rw [Graph.laneMembers, Graph.laneMembers, htraversal]
    simp only [hlane]
  rw [layoutWith_eq, layoutWith_eq, hplaced, hnested]
  simp only [Graph.layoutAround, Graph.laneBands, htraversal, hmembers]

end

/-! ## Flows in another order -/

section
variable {g : Graph} {flows : List Flow} (hperm : flows.Perm g.flows) (hids : g.flowIds.Nodup)
include hperm hids

theorem successors_of_perm : Graph.successors { g with flows } = g.successors := by
  funext id
  refine congrArg (List.map Flow.target) (mergeSort_eq_of_perm (hperm.filter _) ?_)
  intro f hf f' hf' hid
  exact List.inj_on_of_nodup_map hids (hperm.mem_iff.1 (List.mem_filter.1 hf).1)
    (hperm.mem_iff.1 (List.mem_filter.1 hf').1) hid

theorem traversal_of_flows_perm : Graph.traversal { g with flows } = g.traversal := by
  have hreached : Graph.reached { g with flows } = g.reached := by
    rw [Graph.reached, successors_of_perm hperm hids, Graph.reached]
    rfl
  rw [Graph.traversal, Graph.unreached, hreached, Graph.traversal, Graph.unreached]
  rfl

end

/-- Where a node stands, apart from its lane. -/
structure Station (α : Type) where
  renderedId : String
  order : ℕ
  row : ℕ
  column : ℕ
  x : α

def Placement.station {α : Type} (p : Placement α) : Station α where
  renderedId := p.renderedId
  order := p.order
  row := p.row
  column := p.column
  x := p.box.x

/-- The layouts are the same apart from the lanes of nodes and the routes of
    flows. -/
structure GraphLayout.SameGrid {α : Type} (l l' : GraphLayout α) : Prop where
  order : l.order = l'.order
  rows : l.rows = l'.rows
  columns : l.columns = l'.columns
  stations : ∀ id, (l.node? id).map Placement.station = (l'.node? id).map Placement.station
  nested : l.nested = l'.nested

section
variable {α : Type} [Scalar α] {grid : Grid α} {banding : Banding} {stem : String} {g : Graph}

/-- The layouts of sub-processes depend on how the nodes that hold them are
    called. -/
theorem nestedLayouts_congr {placed placed' : List (String × Placement α)} {nodes : List Node}
    {table : List (String × GraphLayout α)} (h : ∀ id,
      (Keyed.get? id placed).map Placement.renderedId =
        (Keyed.get? id placed').map Placement.renderedId) :
    nestedLayouts grid placed table nodes = nestedLayouts grid placed' table nodes := by
  have hinner : ∀ n : Node, n.innerLayout? grid placed = n.innerLayout? grid placed' := by
    intro n
    refine congrArg (Option.bind n.children) (funext fun inner => ?_)
    have hmap := congrArg
      (Option.map fun name => inner.layoutWith grid .single (name ++ "_")) (h n.id)
    rwa [Option.map_map, Option.map_map] at hmap
  induction nodes generalizing table with
  | nil => rfl
  | cons n rest ih => rw [nestedLayouts_cons_eq, nestedLayouts_cons_eq, hinner, ih]

theorem sameGrid_of_perm {flows : List Flow} (hperm : flows.Perm g.flows)
    (hids : g.flowIds.Nodup) :
    (Graph.layoutWith grid banding stem { g with flows }).SameGrid
      (g.layoutWith grid banding stem) := by
  have htraversal := traversal_of_flows_perm hperm hids
  have hstations : ∀ id, (Keyed.get? id
      (Graph.placements grid banding stem { g with flows })).map Placement.station =
      (Keyed.get? id (g.placements grid banding stem)).map Placement.station := by
    intro id
    rw [get?_placements_eq, get?_placements_eq, htraversal, Option.map_map, Option.map_map]
    rfl
  have hnames : ∀ id, (Keyed.get? id
      (Graph.placements grid banding stem { g with flows })).map Placement.renderedId =
      (Keyed.get? id (g.placements grid banding stem)).map Placement.renderedId := by
    intro id
    have hmap := congrArg (Option.map Station.renderedId) (hstations id)
    rwa [Option.map_map, Option.map_map] at hmap
  rw [layoutWith_eq, layoutWith_eq]
  constructor
  · rw [layoutAround_order, layoutAround_order, htraversal]
  · rw [layoutAround_rows, layoutAround_rows, htraversal]
  · rw [layoutAround_columns, layoutAround_columns, htraversal]
  · intro id
    rw [GraphLayout.node?, GraphLayout.node?, layoutAround_nodes, layoutAround_nodes]
    exact hstations id
  · rw [layoutAround_nested, layoutAround_nested]
    exact nestedLayouts_congr hnames

end

/-- **The layout does not depend on the order in which a graph is listed.**  If the
    nodes are listed in another order, the layout stays the same; if the flows are, it
    stays apart from what depends on lanes. -/
theorem layout_relisted {α : Type} [Scalar α] (grid : Grid α) {g : Graph}
    (hids : g.nodeIds.Nodup) (hstart : (g.nodes.filter fun n => n.kind = .start).length ≤ 1) :
    (∀ nodes : List Node, nodes.Perm g.nodes →
      Graph.layout grid { g with nodes } = g.layout grid) ∧
    (g.flowIds.Nodup → ∀ flows : List Flow, flows.Perm g.flows →
      (Graph.layout grid { g with flows }).SameGrid (g.layout grid)) :=
  ⟨fun _ hperm => layoutWith_of_perm hperm hids hstart,
    fun hflows _ hperm => sameGrid_of_perm hperm hflows⟩

/-- The nodes and the flows of `enclosing`, listed backwards. -/
theorem relisted_enclosing :
    Graph.enclosing.nodeIds.Nodup ∧
    (Graph.enclosing.nodes.filter fun n => n.kind = .start).length ≤ 1 ∧
    Graph.enclosing.flowIds.Nodup ∧
    Graph.layout .standard { Graph.enclosing with nodes := Graph.enclosing.nodes.reverse } =
      Graph.enclosing.layout (.standard : Grid Float32) ∧
    (Graph.layout .standard { Graph.enclosing with flows := Graph.enclosing.flows.reverse }).SameGrid
      (Graph.enclosing.layout (.standard : Grid Float32)) := by
  have hids : Graph.enclosing.nodeIds.Nodup := by decide
  have hstart : (Graph.enclosing.nodes.filter fun n => n.kind = .start).length ≤ 1 := by decide
  have hflows : Graph.enclosing.flowIds.Nodup := by decide
  obtain ⟨hnodes, hgrid⟩ := layout_relisted (.standard : Grid Float32) hids hstart
  exact ⟨hids, hstart, hflows, hnodes _ (List.reverse_perm _),
    hgrid hflows _ (List.reverse_perm _)⟩

end Swimlane
