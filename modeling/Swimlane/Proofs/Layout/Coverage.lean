/-
  Swimlane — a layout covers its graph.

  * `Covers g l`: the layout places the nodes of the graph and no others, routes
    its flows, each with two points at least, and holds a layout that covers its
    contents for each sub-process.
  * `mem_traversal`: the traversal goes through all nodes.
  * `get?_nestedLayouts_isSome`, `exists_of_mem_nestedLayouts`: the layouts of
    the sub-processes, found and listed.
  * `covers_layoutWith`: the layout of a graph covers it, if the graph is linked
    on all levels.
-/
import Swimlane.Layout.Serpentine
import Swimlane.Proofs.Graph

namespace Swimlane

open Swimlane.Graph (EachLevel Linked eq_of_id_eq id_mem_nodeIds)

/-! ## Tables -/

namespace Keyed

variable {β : Type} {key : String} {value : β} {table : List (String × β)}

theorem mem_of_get? (h : get? key table = some value) : (key, value) ∈ table := by
  induction table with
  | nil => cases h
  | cons entry rest ih =>
    obtain ⟨k, v⟩ := entry
    rw [get?] at h
    split at h
    · rename_i hk
      cases h
      rw [hk]
      exact List.mem_cons_self
    · exact List.mem_cons_of_mem _ (ih h)

theorem mem_insert {entry : String × β} (h : entry ∈ insert key value table) :
    entry = (key, value) ∨ entry ∈ table := by
  induction table with
  | nil => exact Or.inl (List.mem_singleton.1 h)
  | cons first rest ih =>
    obtain ⟨k, v⟩ := first
    rw [insert] at h
    split at h
    · rcases List.mem_cons.1 h with rfl | h
      · exact Or.inl rfl
      · exact Or.inr (List.mem_cons_of_mem _ h)
    · split at h
      · exact List.mem_cons.1 h
      · rcases List.mem_cons.1 h with rfl | h
        · exact Or.inr List.mem_cons_self
        · exact (ih h).imp_right (List.mem_cons_of_mem _)

end Keyed

/-! ## Coverage -/

/-- The layout holds the graph and nothing else, on all levels. -/
inductive Covers {α : Type} : Graph → GraphLayout α → Prop
  | intro {g : Graph} {l : GraphLayout α}
      (placed : ∀ id, (l.node? id).isSome ↔ id ∈ g.nodeIds)
      (routed : l.edges.map EdgeRoute.flowId = g.flowIds)
      (drawn : ∀ e ∈ l.edges, 2 ≤ e.points.length)
      (nested : ∀ n ∈ g.nodes, n.children.isSome → (l.nested? n.id).isSome)
      (listed : ∀ e ∈ l.nested, ∃ n ∈ g.nodes, n.id = e.1 ∧ n.children.isSome)
      (inside : ∀ n ∈ g.nodes, ∀ inner, n.children = some inner →
        ∀ k, (n.id, k) ∈ l.nested → Covers inner k) :
      Covers g l

/-! ## Placing -/

/-- **The traversal goes through all nodes**, and through nothing else. -/
theorem Graph.mem_traversal {g : Graph} {id : String} : id ∈ g.traversal ↔ id ∈ g.nodeIds := by
  have hreached : id ∈ g.reached → id ∈ g.nodeIds := by
    intro h
    unfold reached at h
    split at h
    · exact mem_walk h
    · cases h
  rw [traversal, List.mem_append, unreached, List.mem_eraseDups, List.mem_mergeSort,
    List.mem_filter]
  constructor
  · rintro (h | ⟨h, -⟩)
    · exact hreached h
    · exact h
  · intro h
    by_cases hr : id ∈ g.reached
    · exact Or.inl hr
    · exact Or.inr ⟨h, by simpa using hr⟩

section
variable {α : Type} [Scalar α] {grid : Grid α} {banding : Banding} {stem : String}

theorem Graph.get?_placeFrom_isSome {g : Graph} {count index : ℕ} {ids : List String}
    {id : String} : (Keyed.get? id (g.placeFrom grid banding stem count index ids)).isSome ↔
      id ∈ ids ∧ id ∈ g.nodeIds := by
  induction ids generalizing index with
  | nil => simp [placeFrom, Keyed.get?]
  | cons head ids ih =>
    cases hnode : g.node? head with
    | none =>
      have hhead : head ∉ g.nodeIds := by
        rw [← node?_isSome, hnode]
        simp
      simp only [placeFrom, hnode, ih, List.mem_cons]
      constructor
      · rintro ⟨hid, hmem⟩
        exact ⟨Or.inr hid, hmem⟩
      · rintro ⟨rfl | hid, hmem⟩
        · exact absurd hmem hhead
        · exact ⟨hid, hmem⟩
    | some n =>
      have hhead : head ∈ g.nodeIds := by
        rw [← node?_isSome, hnode]
        rfl
      simp only [placeFrom, hnode, Keyed.get?_insert, List.mem_cons]
      by_cases hid : id = head
      · simp [hid, hhead]
      · simp [hid, ih]

theorem Graph.get?_placements_isSome {g : Graph} {id : String} :
    (Keyed.get? id (g.placements grid banding stem)).isSome ↔ id ∈ g.nodeIds := by
  rw [placements, get?_placeFrom_isSome, mem_traversal, and_self]

/-! ## Routing -/

section
variable {tolerance : α} {nodes : List (String × Placement α)} {index : ℕ} {flows : List Flow}

/-- A flow between placed nodes has a route. -/
theorem flowIds_routesFrom (h : ∀ f ∈ flows,
      (Keyed.get? f.source nodes).isSome ∧ (Keyed.get? f.target nodes).isSome) :
    (routesFrom tolerance stem nodes index flows).map EdgeRoute.flowId = flows.map Flow.id := by
  induction flows generalizing index with
  | nil => rfl
  | cons f rest ih =>
    obtain ⟨hf, hrest⟩ := List.forall_mem_cons.1 h
    obtain ⟨source, hsource⟩ := Option.isSome_iff_exists.1 hf.1
    obtain ⟨target, htarget⟩ := Option.isSome_iff_exists.1 hf.2
    simp [routesFrom, hsource, htarget, ih hrest]

theorem length_points_of_routesFrom {e : EdgeRoute α}
    (h : e ∈ routesFrom tolerance stem nodes index flows) : 2 ≤ e.points.length := by
  induction flows generalizing index with
  | nil => cases h
  | cons f rest ih =>
    simp only [routesFrom] at h
    split at h
    · rcases List.mem_cons.1 h with rfl | h
      · exact (Box.route_length _ _ _).1
      · exact ih h
    · exact ih h

end

/-! ## Sub-processes -/

section
variable {placed : List (String × Placement α)} {table : List (String × GraphLayout α)}
  {nodes : List Node}

theorem nestedLayouts_cons (n : Node) (rest : List Node) :
    nestedLayouts grid placed table (n :: rest) = nestedLayouts grid placed
      (match n.children, Keyed.get? n.id placed with
        | some inner, some p =>
          Keyed.insert n.id (inner.layoutWith grid .single (p.renderedId ++ "_")) table
        | _, _ => table) rest := by
  obtain ⟨id, kind, label, lane, children, loops⟩ := n
  cases children with
  | none => rw [nestedLayouts]
  | some inner =>
    rw [nestedLayouts]
    cases Keyed.get? id placed <;> rfl

/-- A listed layout was in the table, or is that of a sub-process. -/
theorem exists_of_mem_nestedLayouts {e : String × GraphLayout α}
    (h : e ∈ nestedLayouts grid placed table nodes) : e ∈ table ∨
      ∃ n ∈ nodes, ∃ (inner : Graph) (p : Placement α), n.children = some inner ∧
        Keyed.get? n.id placed = some p ∧
        e = (n.id, inner.layoutWith grid .single (p.renderedId ++ "_")) := by
  induction nodes generalizing table with
  | nil => exact Or.inl h
  | cons n rest ih =>
    rw [nestedLayouts_cons] at h
    rcases ih h with h | ⟨m, hm, hinner⟩
    · split at h
      · rename_i inner p hchildren hplaced
        refine (Keyed.mem_insert h).symm.imp_right fun heq => ?_
        exact ⟨n, List.mem_cons_self, inner, p, hchildren, hplaced, heq⟩
      · exact Or.inl h
    · exact Or.inr ⟨m, List.mem_cons_of_mem _ hm, hinner⟩

/-- Nothing that is in the table gets lost. -/
theorem get?_nestedLayouts_isSome_of_table {id : String} (h : (Keyed.get? id table).isSome) :
    (Keyed.get? id (nestedLayouts grid placed table nodes)).isSome := by
  induction nodes generalizing table with
  | nil => exact h
  | cons n rest ih =>
    rw [nestedLayouts_cons]
    refine ih ?_
    split
    · rw [Keyed.get?_insert]
      split
      · rfl
      · exact h
    · exact h

/-- A placed sub-process has a layout. -/
theorem get?_nestedLayouts_isSome {n : Node} (hn : n ∈ nodes) (hchildren : n.children.isSome)
    (hplaced : (Keyed.get? n.id placed).isSome) :
    (Keyed.get? n.id (nestedLayouts grid placed table nodes)).isSome := by
  induction nodes generalizing table with
  | nil => cases hn
  | cons m rest ih =>
    rw [nestedLayouts_cons]
    rcases List.mem_cons.1 hn with rfl | hn
    · obtain ⟨inner, hinner⟩ := Option.isSome_iff_exists.1 hchildren
      obtain ⟨p, hp⟩ := Option.isSome_iff_exists.1 hplaced
      refine get?_nestedLayouts_isSome_of_table ?_
      simp [hinner, hp, Keyed.get?_insert_self]
    · exact ih hn

end

/-! ## Layouts -/

section
variable {g : Graph} {nodes : List (String × Placement α)}
  {nested : List (String × GraphLayout α)}

@[simp] theorem layoutAround_order :
    (g.layoutAround grid banding stem nodes nested).order = g.traversal := by
  cases banding <;> rfl

@[simp] theorem layoutAround_rows :
    (g.layoutAround grid banding stem nodes nested).rows = rowCount g.traversal.length := by
  cases banding <;> rfl

@[simp] theorem layoutAround_columns :
    (g.layoutAround grid banding stem nodes nested).columns = columnCount g.traversal.length := by
  cases banding <;> rfl

@[simp] theorem layoutAround_nodes :
    (g.layoutAround grid banding stem nodes nested).nodes = nodes := by
  cases banding <;> rfl

@[simp] theorem layoutAround_edges :
    (g.layoutAround grid banding stem nodes nested).edges =
      routesFrom grid.routeTolerance stem nodes 0 g.flows := by
  cases banding <;> rfl

@[simp] theorem layoutAround_nested :
    (g.layoutAround grid banding stem nodes nested).nested = nested := by
  cases banding <;> rfl

theorem layoutWith_eq (g : Graph) : g.layoutWith grid banding stem =
    g.layoutAround grid banding stem (g.placements grid banding stem)
      (nestedLayouts grid (g.placements grid banding stem) [] g.nodes) := by
  cases g
  rw [Graph.layoutWith]

end

/-- Every sub-process has a layout. -/
theorem nested?_layoutWith_isSome {g : Graph} {n : Node} (hn : n ∈ g.nodes)
    (hchildren : n.children.isSome) :
    ((g.layoutWith grid banding stem).nested? n.id).isSome := by
  rw [GraphLayout.nested?, layoutWith_eq, layoutAround_nested]
  refine get?_nestedLayouts_isSome hn hchildren ?_
  rw [Graph.get?_placements_isSome]
  exact id_mem_nodeIds hn

/-- **The layout of a graph covers it.** -/
theorem covers_layoutWith {g : Graph} (h : EachLevel Linked g) :
    Covers g (g.layoutWith grid banding stem) := by
  induction h generalizing banding stem with
  | @intro g here inside ih =>
    rw [layoutWith_eq]
    refine .intro ?_ ?_ ?_ ?_ ?_ ?_
    · intro id
      rw [GraphLayout.node?, layoutAround_nodes, Graph.get?_placements_isSome]
    · rw [layoutAround_edges]
      refine flowIds_routesFrom ?_
      intro f hf
      rw [Graph.get?_placements_isSome, Graph.get?_placements_isSome]
      exact here.ends f hf
    · rw [layoutAround_edges]
      intro e he
      exact length_points_of_routesFrom he
    · intro n hn hchildren
      rw [← layoutWith_eq]
      exact nested?_layoutWith_isSome hn hchildren
    · intro e he
      rw [layoutAround_nested] at he
      rcases exists_of_mem_nestedLayouts he with he | ⟨n, hn, inner, p, hchildren, -, rfl⟩
      · cases he
      · exact ⟨n, hn, rfl, by rw [hchildren]; rfl⟩
    · intro n hn inner hchildren k hk
      rw [layoutAround_nested] at hk
      rcases exists_of_mem_nestedLayouts hk with hk | ⟨m, hm, inner', p, hchildren', -, heq⟩
      · cases hk
      · -- nodes are known by their identifiers, so `k` was made for `n`
        obtain ⟨hid, rfl⟩ := Prod.mk.inj heq
        obtain rfl := eq_of_id_eq here.nodeIds_nodup hn hm hid
        obtain rfl := Option.some.inj (hchildren.symm.trans hchildren')
        exact ih n hn inner hchildren

end

end Swimlane
