/-
  Swimlane — the levels of a layout.

  A layout holds the layouts of sub-processes, each filed under the identifier of its node,
  and these hold others.

  * `exists_layoutWith_of_within`: what is inside the layout of a graph is itself the layout
    of a graph.
  * `GraphLayout.OnLevels P g l`: a property of graphs and their layouts on all levels.
    `onLevels_layoutWith`: what all layouts have, they have on all levels.
-/
import Swimlane.Proofs.Layout.Lanes

namespace Swimlane

section
variable {α : Type} (P : Graph → GraphLayout α → Prop)

mutual

/-- The graph and its layout have the property, and so has everything that is filed, on all
    levels.  No sub-process is left out. -/
inductive GraphLayout.OnLevels : Graph → GraphLayout α → Prop
  | intro {g : Graph} {l : GraphLayout α} (here : P g l)
      (filed : ∀ e ∈ l.nested, GraphLayout.Filed g e.1 e.2)
      (complete : ∀ n ∈ g.nodes, n.children.isSome → (l.nested? n.id).isSome) :
      GraphLayout.OnLevels g l

/-- A layout is filed under the identifier of a sub-process, and lays out what is inside. -/
inductive GraphLayout.Filed : Graph → String → GraphLayout α → Prop
  | intro {g inner : Graph} {n : Node} {k : GraphLayout α} (hn : n ∈ g.nodes)
      (hinner : n.children = some inner) (levels : GraphLayout.OnLevels inner k) :
      GraphLayout.Filed g n.id k

end

end

section
variable {α : Type} {P : Graph → GraphLayout α → Prop} {g : Graph} {l : GraphLayout α}

theorem GraphLayout.OnLevels.here (h : l.OnLevels P g) : P g l := by
  cases h with
  | intro here _ _ => exact here

theorem GraphLayout.Filed.exists_node {id : String} (h : l.Filed P g id) :
    ∃ n ∈ g.nodes, n.id = id ∧ ∃ inner, n.children = some inner ∧ l.OnLevels P inner := by
  cases h with
  | intro hn hinner levels => exact ⟨_, hn, rfl, _, hinner, levels⟩

/-- If identifiers tell nodes apart, the layout that is found for a sub-process lays out what
    is inside it. -/
theorem GraphLayout.OnLevels.exists_nested? (h : l.OnLevels P g) (hids : g.nodeIds.Nodup) {n : Node}
    (hn : n ∈ g.nodes) {inner : Graph} (hinner : n.children = some inner) :
    ∃ k, l.nested? n.id = some k ∧ k.OnLevels P inner := by
  cases h with
  | intro _ filed complete =>
    obtain ⟨k, hk⟩ := Option.isSome_iff_exists.1 (complete n hn (Option.isSome_of_eq_some hinner))
    obtain ⟨m, hm, hid, inner', hinner', hlevels⟩ :=
      (filed (n.id, k) (Keyed.mem_of_get? hk)).exists_node
    obtain rfl := Graph.eq_of_id_eq hids hm hn hid
    obtain rfl := Option.some.inj (hinner.symm.trans hinner')
    exact ⟨k, hk, hlevels⟩

end

section
variable {α : Type} [Scalar α] {grid : Grid α} {banding : Banding} {stem : String}

theorem exists_child_of_mem_nested {g : Graph} {e : String × GraphLayout α}
    (he : e ∈ (g.layoutWith grid banding stem).nested) : ∃ n ∈ g.nodes,
      ∃ (inner : Graph) (stem' : String), n.children = some inner ∧
        e = (n.id, inner.layoutWith grid .single stem') := by
  rw [layoutWith_eq, layoutAround_nested] at he
  rcases exists_of_mem_nestedLayouts he with he | ⟨n, hn, inner, p, hinner, -, rfl⟩
  · cases he
  · exact ⟨n, hn, inner, _, hinner, rfl⟩

/-- **What is inside a layout** is the layout of a graph. -/
theorem exists_layoutWith_of_within {k l : GraphLayout α} (hk : k.Within l) {g : Graph}
    {banding : Banding} {stem : String} (hl : l = g.layoutWith grid banding stem) :
    ∃ (inner : Graph) (stem' : String), k = inner.layoutWith grid .single stem' := by
  induction hk generalizing g banding stem with
  | @child l e he =>
    obtain ⟨n, -, inner, stem', -, rfl⟩ := exists_child_of_mem_nested (hl ▸ he)
    exact ⟨inner, stem', rfl⟩
  | @deeper k l e he hk ih =>
    obtain ⟨n, -, inner, stem', -, rfl⟩ := exists_child_of_mem_nested (hl ▸ he)
    exact ih rfl

/-- **A property of all layouts holds on all levels.** -/
theorem onLevels_layoutWith {P : Graph → GraphLayout α → Prop}
    (h : ∀ (g : Graph) (banding : Banding) (stem : String), P g (g.layoutWith grid banding stem))
    (g : Graph) : GraphLayout.OnLevels P g (g.layoutWith grid banding stem) := by
  induction g using Graph.levels_induction generalizing banding stem with
  | step g ih =>
    refine .intro (h g banding stem) (fun e he => ?_) fun n hn => nested?_layoutWith_isSome hn
    obtain ⟨n, hn, inner, stem', hinner, rfl⟩ := exists_child_of_mem_nested he
    exact .intro hn hinner (ih n hn inner hinner)

end

end Swimlane
