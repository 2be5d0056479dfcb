/-
  Swimlane — document identifiers.

  The layout of a graph gives a document identifier to every node, by its place
  in the traversal, and to every flow, by its place in the list of flows.  Those
  of a sub-process begin with the identifier of the node that holds it.

  * `Graph.nodeName`, `Graph.flowName`: the identifiers, after a stem.
  * `Graph.nodeName_inj`: they tell the nodes of a graph apart.
  * `get?_placements_eq`, `get?_nestedLayouts_eq`: what is found in the tables of a
    layout.
  * `node?_layoutWith`: where a node stands, and its identifier;
    `renderedId_edgeAt`: the identifier of a flow;
    `nested?_layoutWith`: the layout of a sub-process.
-/
import Swimlane.Proofs.Document.Drawing
import Swimlane.Proofs.Document.Identity

namespace Swimlane

open Swimlane.Graph (Linked eq_of_id_eq id_mem_nodeIds)

/-! ## Identifiers -/

namespace Graph

/-- The document identifier of a node. -/
def nodeName (stem : String) (g : Graph) (n : Node) : String :=
  stem ++ n.kind.idStem ++ "_" ++ toString (g.traversal.idxOf n.id + 1)

/-- The document identifier of a flow. -/
def flowName (stem : String) (g : Graph) (f : Flow) : String :=
  stem ++ "Flow_" ++ toString (g.flowIds.idxOf f.id + 1)

/-- The stem of the identifiers inside a node. -/
def innerStem (stem : String) (g : Graph) (n : Node) : String := g.nodeName stem n ++ "_"

theorem isDigit_of_mem_toString {k : ℕ} {c : Char} (h : c ∈ (toString k).toList) :
    c.isDigit = true := by
  have h' : c ∈ Nat.toDigits 10 k := by simpa using h
  exact Nat.isDigit_of_mem_toDigits (by decide) (by decide) h'

theorem toString_injective : Function.Injective (toString : ℕ → String) := by
  intro j k h
  have hchars := congrArg String.toList h
  have hvalue := congrArg (fun ds => Nat.ofDigitChars 10 ds 0) hchars
  simpa using hvalue

theorem underscore_notMem_idStem (kind : NodeKind) : '_' ∉ kind.idStem.toList := by
  cases kind <;> decide

/-- **Nodes of a graph are told apart** by their document identifiers. -/
theorem nodeName_inj {g : Graph} (h : g.nodeIds.Nodup) (stem : String) {n m : Node}
    (hn : n ∈ g.nodes) (hm : m ∈ g.nodes) :
    g.nodeName stem n = g.nodeName stem m ↔ n.id = m.id := by
  constructor
  · intro hname
    have hchars : n.kind.idStem.toList ++ '_' :: (toString (g.traversal.idxOf n.id + 1)).toList =
        m.kind.idStem.toList ++ '_' :: (toString (g.traversal.idxOf m.id + 1)).toList := by
      simpa [nodeName] using congrArg String.toList hname
    obtain ⟨-, hnumber⟩ := Xml.upTo_unique (underscore_notMem_idStem _)
      (underscore_notMem_idStem _) hchars
    have hplace := toString_injective (String.toList_injective hnumber)
    have hmem : n.id ∈ g.traversal := mem_traversal.2 (id_mem_nodeIds hn)
    exact (List.idxOf_inj hmem).1 (by omega)
  · intro hid
    rw [eq_of_id_eq h hn hm hid]

end Graph

section
variable {α : Type} [Scalar α] {grid : Grid α} {banding : Banding} {stem : String}

/-! ## Nodes -/

/-- A node stands at its place in the list. -/
theorem Graph.get?_placeFrom {g : Graph} {count index : ℕ} {ids : List String} {id : String}
    (hid : id ∈ ids) : Keyed.get? id (g.placeFrom grid banding stem count index ids) =
      (g.node? id).map
        (Node.place grid banding stem count (index + ids.idxOf id) (g.drawnLane? banding id)) := by
  induction ids generalizing index with
  | nil => cases hid
  | cons head ids ih =>
    by_cases heq : id = head
    · subst heq
      cases hnode : g.node? id with
      | none =>
        have hnone : ¬ (Keyed.get? id (g.placeFrom grid banding stem count index (id :: ids))).isSome := by
          rw [get?_placeFrom_isSome, ← node?_isSome, hnode]
          simp
        simpa using hnone
      | some n =>
        simp [placeFrom, hnode, Keyed.get?_insert_self]
    · have htail : id ∈ ids := List.mem_of_ne_of_mem heq hid
      have hplace : index + (head :: ids).idxOf id = index + 1 + ids.idxOf id := by
        rw [List.idxOf_cons_ne _ (Ne.symm heq)]
        omega
      rw [hplace, ← ih htail, placeFrom]
      cases g.node? head with
      | none => rfl
      | some n => exact Keyed.get?_insert_of_ne heq _ _

/-! ## Tables -/

/-- What is found in the table of nodes. -/
theorem get?_placements_eq (g : Graph) (id : String) :
    Keyed.get? id (g.placements grid banding stem) = (g.node? id).map (Node.place grid banding stem
      g.traversal.length (g.traversal.idxOf id) (g.drawnLane? banding id)) := by
  by_cases hid : id ∈ g.traversal
  · rw [Graph.placements, Graph.get?_placeFrom hid, Nat.zero_add]
  · rw [Graph.mem_traversal] at hid
    have hnode : g.node? id = none := by
      rwa [← Graph.node?_isSome, Option.not_isSome_iff_eq_none] at hid
    have hget : ¬ (Keyed.get? id (g.placements grid banding stem)).isSome := by
      rwa [Graph.get?_placements_isSome]
    rw [hnode, Option.not_isSome_iff_eq_none.1 hget, Option.map_none]

/-- The layout of what is inside a node, if the node is placed. -/
def Node.innerLayout? (grid : Grid α) (placed : List (String × Placement α)) (n : Node) :
    Option (GraphLayout α) :=
  n.children.bind fun inner => (Keyed.get? n.id placed).map fun p =>
    inner.layoutWith grid .single (p.renderedId ++ "_")

theorem nestedLayouts_cons_eq {placed : List (String × Placement α)}
    {table : List (String × GraphLayout α)} (n : Node) (rest : List Node) :
    nestedLayouts grid placed table (n :: rest) = nestedLayouts grid placed
      ((n.innerLayout? grid placed).elim table fun k => Keyed.insert n.id k table) rest := by
  rw [nestedLayouts_cons, Node.innerLayout?]
  cases n.children with
  | none => rfl
  | some inner => cases Keyed.get? n.id placed <;> rfl

/-- What is found in the table of sub-processes, if nodes are known by their
    identifiers. -/
theorem get?_nestedLayouts {placed : List (String × Placement α)}
    {table : List (String × GraphLayout α)} {nodes : List Node} (h : (nodes.map Node.id).Nodup)
    (id : String) : Keyed.get? id (nestedLayouts grid placed table nodes) =
      ((nodes.find? fun n => n.id = id).bind (Node.innerLayout? grid placed)).or
        (Keyed.get? id table) := by
  induction nodes generalizing table with
  | nil => rfl
  | cons n rest ih =>
    obtain ⟨hn, hrest⟩ := List.nodup_cons.1 h
    rw [nestedLayouts_cons_eq, ih hrest, List.find?_cons]
    by_cases hid : n.id = id
    · have hnone : rest.find? (fun m => m.id = id) = none := by
        refine List.find?_eq_none.2 fun m hm hmid => hn ?_
        rw [hid, ← decide_eq_true_eq.mp hmid]
        exact List.mem_map_of_mem hm
      rw [hnone, decide_eq_true hid, ← hid]
      cases hinner : n.innerLayout? grid placed with
      | none => simp [hinner]
      | some k => simp [hinner, Keyed.get?_insert_self]
    · rw [decide_eq_false hid]
      congr 1
      cases n.innerLayout? grid placed with
      | none => rfl
      | some k => exact Keyed.get?_insert_of_ne (Ne.symm hid) _ _

theorem get?_nestedLayouts_eq {g : Graph} (h : g.nodeIds.Nodup)
    (placed : List (String × Placement α)) (id : String) : Keyed.get? id (nestedLayouts grid placed [] g.nodes) =
      (g.node? id).bind (Node.innerLayout? grid placed) := by
  rw [get?_nestedLayouts h, Keyed.get?, Option.or_none]
  rfl

section
variable {g : Graph}

theorem get?_placements (grid : Grid α) (banding : Banding) (stem : String)
    (h : g.nodeIds.Nodup) {n : Node} (hn : n ∈ g.nodes) :
    Keyed.get? n.id (g.placements grid banding stem) =
      some (n.place grid banding stem g.traversal.length (g.traversal.idxOf n.id)
        (g.drawnLane? banding n.id)) := by
  rw [get?_placements_eq, (Graph.node?_eq_some h).2 ⟨hn, rfl⟩, Option.map_some]

/-! ## Flows -/

/-- A flow between placed nodes is named by its place in the list. -/
theorem find?_routesFrom (tolerance : α) (stem : String) (index : ℕ)
    {nodes : List (String × Placement α)} {flows : List Flow} (h : ∀ f ∈ flows,
      (Keyed.get? f.source nodes).isSome ∧ (Keyed.get? f.target nodes).isSome)
    {f : Flow} (hf : f ∈ flows) :
    ∃ e, (routesFrom tolerance stem nodes index flows).find? (fun e => e.flowId = f.id) = some e ∧
      e.renderedId = stem ++ "Flow_" ++ toString (index + (flows.map Flow.id).idxOf f.id + 1) := by
  induction flows generalizing index with
  | nil => cases hf
  | cons first rest ih =>
    obtain ⟨hfirst, hrest⟩ := List.forall_mem_cons.1 h
    obtain ⟨source, hsource⟩ := Option.isSome_iff_exists.1 hfirst.1
    obtain ⟨target, htarget⟩ := Option.isSome_iff_exists.1 hfirst.2
    simp only [routesFrom, hsource, htarget, List.find?_cons, List.map_cons]
    by_cases heq : first.id = f.id
    · refine ⟨_, by rw [decide_eq_true heq], ?_⟩
      simp [heq]
    · have htail : f ∈ rest := (List.mem_cons.1 hf).resolve_left fun hfirst => heq (by rw [hfirst])
      obtain ⟨e, he, hname⟩ := ih (index + 1) hrest htail
      refine ⟨e, by rw [decide_eq_false heq]; exact he, ?_⟩
      rw [hname, List.idxOf_cons_ne _ heq]
      congr 2
      omega

/-- **How a flow is called** in the layout of a graph. -/
theorem renderedId_edgeAt (hg : Linked g) {f : Flow} (hf : f ∈ g.flows) :
    ((g.layoutWith grid banding stem).edgeAt f.id).renderedId = g.flowName stem f := by
  have hends : ∀ f ∈ g.flows, (Keyed.get? f.source (g.placements grid banding stem)).isSome ∧
      (Keyed.get? f.target (g.placements grid banding stem)).isSome := by
    intro f hf
    rw [Graph.get?_placements_isSome, Graph.get?_placements_isSome]
    exact hg.ends f hf
  obtain ⟨e, he, hname⟩ := find?_routesFrom grid.routeTolerance stem 0 hends hf
  rw [GraphLayout.edgeAt, GraphLayout.edge?, layoutWith_eq, layoutAround_edges, he,
    Option.getD_some, hname, Nat.zero_add]
  rfl

/-! ## Nodes and what is inside them -/

/-- **Where a node stands** in the layout of a graph. -/
theorem node?_layoutWith (h : g.nodeIds.Nodup) {n : Node} (hn : n ∈ g.nodes) :
    (g.layoutWith grid banding stem).node? n.id =
      some (n.place grid banding stem g.traversal.length (g.traversal.idxOf n.id)
        (g.drawnLane? banding n.id)) := by
  rw [GraphLayout.node?, layoutWith_eq, layoutAround_nodes, get?_placements grid banding stem h hn]

/-- **The layout of a sub-process** in the layout of a graph. -/
theorem nested?_layoutWith (h : g.nodeIds.Nodup) {n : Node} (hn : n ∈ g.nodes) {inner : Graph}
    (hinner : n.children = some inner) :
    (g.layoutWith grid banding stem).nested? n.id =
      some (inner.layoutWith grid .single (g.innerStem stem n)) := by
  rw [GraphLayout.nested?, layoutWith_eq, layoutAround_nested,
    get?_nestedLayouts_eq h, (Graph.node?_eq_some h).2 ⟨hn, rfl⟩, Option.bind_some,
    Node.innerLayout?, hinner, Option.bind_some, get?_placements grid banding stem h hn]
  rfl

section
variable [Inhabited α]

theorem nodeAt_layoutWith (hg : Linked g) {n : Node} (hn : n ∈ g.nodes) :
    (g.layoutWith grid banding stem).nodeAt n.id =
      n.place grid banding stem g.traversal.length (g.traversal.idxOf n.id)
        (g.drawnLane? banding n.id) := by
  rw [GraphLayout.nodeAt, node?_layoutWith hg.nodeIds_nodup hn, Option.getD_some]

/-- **How a node is called** in the layout of a graph. -/
theorem renderedId_nodeAt (hg : Linked g) {n : Node} (hn : n ∈ g.nodes) :
    ((g.layoutWith grid banding stem).nodeAt n.id).renderedId = g.nodeName stem n := by
  rw [nodeAt_layoutWith hg hn]
  rfl

theorem innerAt_layoutWith (hg : Linked g) {n : Node} (hn : n ∈ g.nodes) {inner : Graph}
    (hinner : n.children = some inner) :
    (g.layoutWith grid banding stem).innerAt n.id =
      inner.layoutWith grid .single (g.innerStem stem n) := by
  rw [GraphLayout.innerAt, nested?_layoutWith hg.nodeIds_nodup hn hinner, Option.getD_some]

end

end

/-! ## Lanes -/

/-- The layout of a process has all lanes. -/
theorem map_lane_layout (grid : Grid α) (g : Graph) :
    (g.layout grid).lanes.map LaneBand.lane = Lane.all := by
  rw [Graph.layout, layoutWith_eq]
  rfl

end

end Swimlane
