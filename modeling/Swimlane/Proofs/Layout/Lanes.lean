/-
  Swimlane — lanes partition the nodes.

  The members of a lane are taken from the traversal by a table of lanes, and named
  by a table of placements.  Here the two agree: every node of a process is a member
  of one lane, its own or the one that it borrows, and nothing else is.

  * `ownLane?_eq`, `laneOf?_eq`: the lanes of identifiers are those of their nodes.
  * `GraphLayout.nodeNames`: how the nodes of a layout are called, in order.
    `nodup_nodeNames`: no two of them are called the same.
  * `GraphLayout.Within k l`: the layout of a sub-process at any depth.
    `exists_of_within`: its nodes are called by names with more underscores.
  * `lanes_partition`: the lanes of a layout partition its nodes.
-/
import Swimlane.Proofs.Layout.Naming
import Swimlane.Proofs.Layout.Order

namespace Swimlane

open Swimlane.Graph (id_mem_nodeIds isDigit_of_mem_toString underscore_notMem_idStem)

/-! ## Lanes of identifiers -/

namespace Graph

variable {g : Graph}

/-- The own lane of an identifier is that of its node. -/
theorem ownLane?_eq (h : g.nodeIds.Nodup) (id : String) :
    g.ownLane? id = (g.node? id).bind Node.lane := by
  cases hown : g.ownLane? id with
  | none =>
    cases hnode : g.node? id with
    | none => rfl
    | some n =>
      obtain ⟨hn, rfl⟩ := (node?_eq_some h).1 hnode
      have hnone := List.findSome?_eq_none_iff.1 hown n (List.mem_reverse.2 hn)
      rw [if_pos rfl] at hnone
      rw [Option.bind_some, hnone]
  | some lane =>
    obtain ⟨n, hn, hlane⟩ := List.exists_of_findSome?_eq_some hown
    split at hlane
    · rename_i hid
      rw [(node?_eq_some h).2 ⟨List.mem_reverse.1 hn, hid⟩, Option.bind_some, hlane]
    · cases hlane

/-- The lane of an identifier is that of its node. -/
theorem laneOf?_eq (h : g.nodeIds.Nodup) (id : String) :
    g.laneOf? id = (g.node? id).map g.laneOfNode := by
  have hreverse : g.nodes.reverse.find? (fun n => n.id = id) = g.node? id :=
    node?_of_perm (List.reverse_perm g.nodes) h id
  rw [laneOf?, hreverse]

end Graph

/-! ## Names of nodes -/

/-- How the nodes of a layout are called in the document, in traversal order. -/
def GraphLayout.nodeNames {α : Type} (l : GraphLayout α) : List String :=
  l.order.filterMap fun id => (l.node? id).map Placement.renderedId

section
variable {α : Type} [Scalar α] {grid : Grid α} {banding : Banding} {stem : String} {g : Graph}

theorem renderedId_eq_some_iff (h : g.nodeIds.Nodup) {id name : String} :
    ((g.layoutWith grid banding stem).node? id).map Placement.renderedId = some name ↔
      ∃ n ∈ g.nodes, n.id = id ∧ g.nodeName stem n = name := by
  rw [GraphLayout.node?, layoutWith_eq, layoutAround_nodes, get?_placements_eq, Option.map_map,
    Option.map_eq_some_iff]
  constructor
  · rintro ⟨n, hnode, rfl⟩
    obtain ⟨hn, rfl⟩ := (Graph.node?_eq_some h).1 hnode
    exact ⟨n, hn, rfl, rfl⟩
  · rintro ⟨n, hn, rfl, rfl⟩
    exact ⟨n, (Graph.node?_eq_some h).2 ⟨hn, rfl⟩, rfl⟩

/-- **No two nodes of a layout are called the same.** -/
theorem nodup_nodeNames (h : g.nodeIds.Nodup) :
    (g.layoutWith grid banding stem).nodeNames.Nodup := by
  have horder : (g.layoutWith grid banding stem).order.Nodup := by
    rw [layoutWith_eq, layoutAround_order]
    exact g.nodup_traversal
  refine horder.filterMap fun id id' name hname hname' => ?_
  obtain ⟨n, hn, rfl, hid⟩ := (renderedId_eq_some_iff h).1 hname
  obtain ⟨m, hm, rfl, hid'⟩ := (renderedId_eq_some_iff h).1 hname'
  exact (Graph.nodeName_inj h stem hn hm).1 (hid.trans hid'.symm)

/-! ## Members of lanes -/

section
variable {b : LaneBand α} (hb : b ∈ (g.layout grid).lanes)
include hb

theorem members_of_mem_lanes :
    b.members = g.laneMembers (g.layout grid).nodes b.lane := by
  rw [Graph.layout, layoutWith_eq] at hb ⊢
  obtain ⟨lane, -, rfl⟩ := List.mem_map.1 hb
  rw [layoutAround_nodes]

/-- The members of a lane follow the order of the nodes. -/
theorem members_sublist : b.members.Sublist (g.layout grid).nodeNames := by
  have horder : (g.layout grid).order = g.traversal := by
    rw [Graph.layout, layoutWith_eq, layoutAround_order]
  rw [members_of_mem_lanes hb, GraphLayout.nodeNames, horder]
  exact List.filter_sublist.filterMap _

/-- **The members of a lane** are the nodes with this lane. -/
theorem mem_members_iff (h : g.nodeIds.Nodup) {name : String} :
    name ∈ b.members ↔ ∃ n ∈ g.nodes, g.nodeName "" n = name ∧ g.laneOf? n.id = some b.lane := by
  rw [members_of_mem_lanes hb, Graph.laneMembers, List.mem_filterMap]
  constructor
  · rintro ⟨id, hid, hmember⟩
    obtain ⟨n, hn, rfl, hname⟩ := (renderedId_eq_some_iff h).1 hmember
    exact ⟨n, hn, hname, of_decide_eq_true (List.mem_filter.1 hid).2⟩
  · rintro ⟨n, hn, hname, hlane⟩
    refine ⟨n.id, List.mem_filter.2 ⟨?_, decide_eq_true hlane⟩, ?_⟩
    · exact Graph.mem_traversal.2 (id_mem_nodeIds hn)
    · exact (renderedId_eq_some_iff h).2 ⟨n, hn, rfl, hname⟩

end

/-! ## Names inside sub-processes -/

/-- The layout of a sub-process inside another layout, at any depth. -/
inductive GraphLayout.Within : GraphLayout α → GraphLayout α → Prop
  | child {l : GraphLayout α} {e : String × GraphLayout α} (h : e ∈ l.nested) : Within e.2 l
  | deeper {k l : GraphLayout α} {e : String × GraphLayout α} (h : e ∈ l.nested)
      (hk : Within k e.2) : Within k l

/-- The number of underscores in a text. -/
def underscores (s : String) : ℕ := s.toList.count '_'

theorem underscores_append (s t : String) :
    underscores (s ++ t) = underscores s + underscores t := by
  rw [underscores, String.toList_append, List.count_append]
  rfl

/-- The identifier of a node has one underscore more than its stem. -/
theorem underscores_place (count index : ℕ) (lane : Option Lane) (n : Node) :
    underscores (n.place grid banding stem count index lane).renderedId = underscores stem + 1 := by
  have hkind : underscores n.kind.idStem = 0 := List.count_eq_zero.2 (underscore_notMem_idStem _)
  have hnumber : underscores (toString (index + 1)) = 0 :=
    List.count_eq_zero.2 fun h => absurd (isDigit_of_mem_toString h) (by decide)
  have hunderscore : underscores "_" = 1 := by decide
  rw [Node.place, underscores_append, underscores_append, underscores_append, hkind, hnumber,
    hunderscore]

theorem underscores_of_mem_placements {e : String × Placement α}
    (he : e ∈ g.placements grid banding stem) :
    underscores e.2.renderedId = underscores stem + 1 := by
  have hplaced : ∀ (count index : ℕ) (ids : List String),
      ∀ e ∈ g.placeFrom grid banding stem count index ids,
        underscores e.2.renderedId = underscores stem + 1 := by
    intro count index ids
    induction ids generalizing index with
    | nil => exact fun e he => by cases he
    | cons id ids ih =>
      intro e he
      rw [Graph.placeFrom] at he
      split at he
      · rcases Keyed.mem_insert he with rfl | he
        · exact underscores_place count index _ _
        · exact ih _ e he
      · exact ih _ e he
  exact hplaced _ _ _ e he

theorem underscores_of_mem_nodes {e : String × Placement α}
    (he : e ∈ (g.layoutWith grid banding stem).nodes) :
    underscores e.2.renderedId = underscores stem + 1 := by
  rw [layoutWith_eq, layoutAround_nodes] at he
  exact underscores_of_mem_placements he

/-- What is directly inside a layout is named after the node that holds it. -/
theorem exists_of_mem_nested {e : String × GraphLayout α}
    (he : e ∈ (g.layoutWith grid banding stem).nested) : ∃ (inner : Graph) (stem' : String),
      e.2 = inner.layoutWith grid .single stem' ∧ underscores stem' = underscores stem + 2 := by
  rw [layoutWith_eq, layoutAround_nested] at he
  rcases exists_of_mem_nestedLayouts he with he | ⟨n, -, inner, p, -, hp, rfl⟩
  · cases he
  · refine ⟨inner, p.renderedId ++ "_", rfl, ?_⟩
    rw [underscores_append, underscores_of_mem_placements (Keyed.mem_of_get? hp)]
    rfl

/-- **The layout of a sub-process at any depth** has neither lanes nor a pool, and its nodes
    are called by names with more underscores. -/
theorem exists_of_within {k l : GraphLayout α} (hk : k.Within l) {g : Graph} {banding : Banding}
    {stem : String} (hl : l = g.layoutWith grid banding stem) : k.lanes = [] ∧ k.pool = none ∧
      ∀ e ∈ k.nodes, underscores stem + 1 < underscores e.2.renderedId := by
  induction hk generalizing g banding stem with
  | @child l e he =>
    subst hl
    obtain ⟨inner, stem', heq, hstem⟩ := exists_of_mem_nested he
    rw [heq]
    refine ⟨by rw [layoutWith_eq]; rfl, by rw [layoutWith_eq]; rfl, fun e he => ?_⟩
    rw [underscores_of_mem_nodes he, hstem]
    omega
  | @deeper k l e he hk ih =>
    subst hl
    obtain ⟨inner, stem', heq, hstem⟩ := exists_of_mem_nested he
    obtain ⟨hlanes, hpool, hnames⟩ := ih heq
    refine ⟨hlanes, hpool, fun e he => ?_⟩
    have hname := hnames e he
    omega

end

/-! ## The partition -/

/-- The lanes of a layout partition the nodes of a graph. -/
structure GraphLayout.Partitions {α : Type} (l : GraphLayout α) (g : Graph) : Prop where
  /-- There are the four lanes in their order. -/
  stacked : l.lanes.map LaneBand.lane = Lane.all
  /-- Every node is one member of its lane, and of no other. -/
  seated : ∀ n ∈ g.nodes, ∃ (lane : Lane) (p : Placement α), g.laneOf? n.id = some lane ∧
    l.node? n.id = some p ∧ p.lane = some lane ∧
    ∀ b ∈ l.lanes, b.members.count p.renderedId = if b.lane = lane then 1 else 0
  /-- The members of a lane are nodes, in traversal order. -/
  ordered : ∀ b ∈ l.lanes, b.members.Sublist l.nodeNames
  /-- What is inside a sub-process has no lanes and is in none. -/
  inside : ∀ k : GraphLayout α, k.Within l → k.lanes = [] ∧ k.pool = none ∧
    ∀ e ∈ k.nodes, ∀ b ∈ l.lanes, e.2.renderedId ∉ b.members

/-- **Lanes partition the nodes** of a process. -/
theorem lanes_partition {α : Type} [Scalar α] (grid : Grid α) {g : Graph}
    (h : g.nodeIds.Nodup) : (g.layout grid).Partitions g := by
  refine ⟨map_lane_layout grid g, fun n hn => ?_, fun b hb => members_sublist hb, fun k hk => ?_⟩
  · have hlane : g.laneOf? n.id = some (g.laneOfNode n) := by
      rw [Graph.laneOf?_eq h, (Graph.node?_eq_some h).2 ⟨hn, rfl⟩, Option.map_some]
    refine ⟨g.laneOfNode n, _, hlane, node?_layoutWith h hn, hlane, fun b hb => ?_⟩
    have hnodup : b.members.Nodup := (nodup_nodeNames h).sublist (members_sublist hb)
    rw [hnodup.count]
    refine if_congr ((mem_members_iff hb h).trans ?_) rfl rfl
    constructor
    · rintro ⟨m, hm, hname, hmlane⟩
      rw [(Graph.nodeName_inj h "" hm hn).1 hname, hlane] at hmlane
      exact (Option.some.inj hmlane).symm
    · intro hown
      exact ⟨n, hn, rfl, by rw [hlane, hown]⟩
  · obtain ⟨hlanes, hpool, hnames⟩ := exists_of_within hk rfl
    refine ⟨hlanes, hpool, fun e he b hb hmember => ?_⟩
    obtain ⟨id, -, hname⟩ := List.mem_filterMap.1 ((members_sublist hb).mem hmember)
    obtain ⟨p, hp, hpname⟩ := Option.map_eq_some_iff.1 hname
    have hshort := underscores_of_mem_nodes (Keyed.mem_of_get? hp)
    have hlong := hnames e he
    rw [hpname] at hshort
    omega

theorem partitions_enclosing : Graph.enclosing.nodeIds.Nodup ∧
    (Graph.enclosing.layout (.standard : Grid Float32)).Partitions Graph.enclosing := by
  have hids : Graph.enclosing.nodeIds.Nodup := by decide
  exact ⟨hids, lanes_partition .standard hids⟩

end Swimlane
