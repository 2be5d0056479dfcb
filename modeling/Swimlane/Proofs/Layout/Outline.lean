/-
  Swimlane — the listing of a layout lists its graph.

  A listing is put together from look-ups in the layout and in the graph, and leaves out
  what either of them lacks.  The listing of a graph and its own layout leaves out
  nothing.

  * `Node.entry`, `Flow.entry`: what a listing says about a node and a flow.
  * `outline_nodes_eq`, `outline_nodes_perm`, `outline_edges_eq`: the entries of a
    listing.
  * `Lists o g`: the listing has the nodes of the graph in traversal order, each once,
    and its flows in order, on all levels.
  * `lists_outline`: so has the listing of a graph and its layout.
-/
import Swimlane.Outline
import Swimlane.Proofs.Document.Rendering
import Swimlane.Proofs.Layout.Naming
import Swimlane.Proofs.Layout.Order

namespace Swimlane

open Swimlane.Graph (EachLevel Linked id_mem_nodeIds)

/-! ## Entries -/

section
variable {α : Type} (l : GraphLayout α)

/-- The listing of what is inside a node. -/
def Node.outlineInside (n : Node) : Option (Outline α) :=
  n.children.bind fun inner => (l.nested? n.id).map fun k => Outline.of k inner

/-- What a listing says about a flow. -/
def Flow.entry (f : Flow) : OutlineEdge α where
  id := f.id
  renderedId := (l.edgeAt f.id).renderedId
  source := f.source
  target := f.target
  label := f.label
  points := (l.edgeAt f.id).points

/-- What a listing says about a node. -/
def Node.entry [Inhabited α] (n : Node) : OutlineNode α :=
  (l.nodeAt n.id).outlineNode n (n.outlineInside l)

theorem nested_entry [Inhabited α] (n : Node) : (n.entry l).nested = n.outlineInside l := rfl

theorem outlineContents_eq (nodes : List Node) :
    outlineContents l nodes = nodes.map fun n => (n, n.outlineInside l) := by
  induction nodes with
  | nil => rw [outlineContents, List.map_nil]
  | cons n rest ih =>
    obtain ⟨id, kind, label, lane, children, loops⟩ := n
    cases children with
    | none => rw [outlineContents, ih]; rfl
    | some inner =>
      rw [outlineContents, ih, List.map_cons, Node.outlineInside, Option.bind_some]
      cases l.nested? id <;> rfl

theorem outline_nodes_of (g : Graph) : (Outline.of l g).nodes = l.order.filterMap fun id =>
    (l.node? id).bind fun p => (g.node? id).map fun n => p.outlineNode n (n.outlineInside l) := by
  obtain ⟨name, nodes, flows⟩ := g
  rw [Outline.of, GraphLayout.outlineNodes, outlineContents_eq]
  refine List.filterMap_congr fun id _ => ?_
  rw [List.find?_map, Graph.node?]
  cases l.node? id with
  | none => rfl
  | some p =>
    dsimp only [Function.comp_def]
    cases nodes.find? fun n => n.id = id <;> rfl

end

section
variable {α : Type} [Scalar α] [Inhabited α] {grid : Grid α} {banding : Banding} {stem : String}
  {g : Graph}

/-- The nodes of a listing, in traversal order. -/
theorem outline_nodes_eq (hg : Linked g) :
    (Outline.of (g.layoutWith grid banding stem) g).nodes = g.traversal.filterMap fun id =>
      (g.node? id).map (Node.entry (g.layoutWith grid banding stem)) := by
  have horder : (g.layoutWith grid banding stem).order = g.traversal := by
    rw [layoutWith_eq, layoutAround_order]
  rw [outline_nodes_of, horder]
  refine List.filterMap_congr fun id hid => ?_
  obtain ⟨n, hn, rfl⟩ := Graph.mem_nodeIds.1 (Graph.mem_traversal.1 hid)
  rw [(Graph.node?_eq_some hg.nodeIds_nodup).2 ⟨hn, rfl⟩, node?_layoutWith hg.nodeIds_nodup hn,
    Option.bind_some, Option.map_some, Option.map_some, Node.entry, nodeAt_layoutWith hg hn]

theorem map_id_outline_nodes (hg : Linked g) :
    (Outline.of (g.layoutWith grid banding stem) g).nodes.map OutlineNode.id = g.traversal := by
  rw [outline_nodes_eq hg, List.map_filterMap]
  refine (List.filterMap_congr fun id hid => ?_).trans List.filterMap_some
  obtain ⟨n, hn, rfl⟩ := Graph.mem_nodeIds.1 (Graph.mem_traversal.1 hid)
  rw [(Graph.node?_eq_some hg.nodeIds_nodup).2 ⟨hn, rfl⟩]
  rfl

/-- **The nodes of a listing** are those of the graph, in another order. -/
theorem outline_nodes_perm (hg : Linked g) :
    (Outline.of (g.layoutWith grid banding stem) g).nodes.Perm
      (g.nodes.map (Node.entry (g.layoutWith grid banding stem))) := by
  have hnodes : g.nodeIds.filterMap (fun id =>
      (g.node? id).map (Node.entry (g.layoutWith grid banding stem))) =
      g.nodes.map (Node.entry (g.layoutWith grid banding stem)) := by
    rw [Graph.nodeIds, List.filterMap_map, ← List.filterMap_eq_map]
    refine List.filterMap_congr fun n hn => ?_
    rw [Function.comp_apply, (Graph.node?_eq_some hg.nodeIds_nodup).2 ⟨hn, rfl⟩]
    rfl
  rw [outline_nodes_eq hg, ← hnodes]
  exact (Graph.traversal_perm hg.nodeIds_nodup).filterMap _

omit [Inhabited α] in
/-- **The flows of a listing** are those of the graph. -/
theorem outline_edges_eq (hg : EachLevel Linked g) :
    (Outline.of (g.layoutWith grid banding stem) g).edges =
      g.flows.map (Flow.entry (g.layoutWith grid banding stem)) := by
  have hedges : (Outline.of (g.layoutWith grid banding stem) g).edges =
      (g.layoutWith grid banding stem).outlineEdges g.flows := by
    cases g
    rw [Outline.of]
  rw [hedges, GraphLayout.outlineEdges, ← List.filterMap_eq_map]
  refine List.filterMap_congr fun f hf => ?_
  have hfits : Fits g (g.layoutWith grid banding stem) := fits_layoutWith hg
  obtain ⟨e, he, -⟩ := hfits.exists_edge? hf
  rw [Function.comp_apply, Flow.entry, GraphLayout.edgeAt, he]
  rfl

omit [Inhabited α] in
/-- The listing of a sub-process. -/
theorem outlineInside_eq (hg : Linked g) {n : Node} (hn : n ∈ g.nodes) {inner : Graph}
    (hinner : n.children = some inner) : n.outlineInside (g.layoutWith grid banding stem) =
      some (Outline.of (inner.layoutWith grid .single (g.innerStem stem n)) inner) := by
  rw [Node.outlineInside, hinner, Option.bind_some,
    nested?_layoutWith hg.nodeIds_nodup hn hinner, Option.map_some]

/-! ## Levels -/

/-- The listing lists the graph: each node once, in traversal order, and the flows in their
    order, on all levels. -/
inductive Outline.Lists {α : Type} : Outline α → Graph → Prop
  | intro {o : Outline α} {g : Graph}
      (order : o.nodes.map OutlineNode.id = g.traversal)
      (once : g.traversal.Perm g.nodeIds)
      (nodes : ∀ e ∈ o.nodes, ∃ n ∈ g.nodes,
        n.id = e.id ∧ n.kind = e.kind ∧ n.label = e.label ∧ n.children.isSome = e.nested.isSome)
      (flows : (o.edges.map fun e => (⟨e.id, e.source, e.target, e.label⟩ : Flow)) = g.flows)
      (inside : ∀ e ∈ o.nodes, ∀ n ∈ g.nodes, n.id = e.id → ∀ inner k,
        n.children = some inner → e.nested = some k → k.Lists inner) :
      o.Lists g

/-- **A listing lists its graph**: nothing is left out, repeated or put on another level. -/
theorem lists_outline (hg : EachLevel Linked g) :
    (Outline.of (g.layoutWith grid banding stem) g).Lists g := by
  induction hg generalizing banding stem with
  | @intro g here inside ih =>
    have hentry : ∀ e ∈ (Outline.of (g.layoutWith grid banding stem) g).nodes,
        ∃ n ∈ g.nodes, n.entry (g.layoutWith grid banding stem) = e := fun e he =>
      List.mem_map.1 ((outline_nodes_perm here).mem_iff.1 he)
    refine .intro (map_id_outline_nodes here) (Graph.traversal_perm here.nodeIds_nodup) ?_ ?_ ?_
    · intro e he
      obtain ⟨n, hn, rfl⟩ := hentry e he
      refine ⟨n, hn, rfl, rfl, rfl, ?_⟩
      rw [nested_entry]
      cases hinner : n.children with
      | none => rw [Node.outlineInside, hinner]; rfl
      | some inner => rw [outlineInside_eq here hn hinner]; rfl
    · rw [outline_edges_eq (.intro here inside), List.map_map]
      exact List.map_id _
    · intro e he n hn hid inner k hinner hk
      obtain ⟨m, hm, rfl⟩ := hentry e he
      obtain rfl := Graph.eq_of_id_eq here.nodeIds_nodup hn hm hid
      rw [nested_entry, outlineInside_eq here hn hinner] at hk
      obtain rfl := Option.some.inj hk
      exact ih n hn inner hinner

end

end Swimlane
