/-
  Swimlane — the grid is filled by a winding path.

  The nodes of a layout stand in the cells of its grid one after the other.  Each step
  goes to a neighbouring cell, no cell is entered twice, and the path ends in the last
  row.

  * `distance_cell_succ`: two cells that follow each other are neighbours;
    `cell_injective`: no cell is entered twice; `cell_entry`: every cell of a full row is
    entered.
  * `cell?`: a cell, computed by operations that may have no result.
    `cell?_eq_some`: they have one.
  * `columns_mul_lt`: no row is empty.
  * `GraphLayout.Winds g l`: the nodes of the layout lie on such a path.
    `layout_winds`: those of every layout do, on all levels; `winds_enclosing`: two of
    them inside a sub-process.
-/
import Mathlib.Data.Nat.Dist
import Swimlane.Proofs.Layout.Levels

namespace Swimlane

/-! ## Cells on a path -/

/-- The number of steps between two cells, along rows and columns. -/
def distance (c c' : ℕ × ℕ) : ℕ := Nat.dist c.1 c'.1 + Nat.dist c.2 c'.2

/-- The place on the path at which a cell is entered. -/
def entry (columns row column : ℕ) : ℕ :=
  columns * row + if row % 2 = 1 then columns - 1 - column else column

section
variable {columns row offset : ℕ}

theorem cell_mul_add (h : offset < columns) (row : ℕ) : cell columns (columns * row + offset) =
    (row, if row % 2 = 1 then columns - 1 - offset else offset) := by
  have hrow : (columns * row + offset) / columns = row := by
    rw [Nat.mul_add_div (by omega), Nat.div_eq_of_lt h, Nat.add_zero]
  have hoffset : (columns * row + offset) % columns = offset := by
    rw [Nat.mul_add_mod, Nat.mod_eq_of_lt h]
  simp only [cell, hrow, hoffset]

/-- Every place lies in a row. -/
theorem exists_mul_add (h : 0 < columns) (index : ℕ) :
    ∃ row offset, offset < columns ∧ index = columns * row + offset :=
  ⟨index / columns, index % columns, Nat.mod_lt _ h, (Nat.div_add_mod ..).symm⟩

/-- **The path goes from neighbour to neighbour.** -/
theorem distance_cell_succ (h : 0 < columns) (index : ℕ) :
    distance (cell columns index) (cell columns (index + 1)) = 1 := by
  obtain ⟨row, offset, hoffset, rfl⟩ := exists_mul_add h index
  by_cases hlast : offset + 1 < columns
  · -- the next cell is in the same row
    rw [cell_mul_add hoffset, Nat.add_assoc, cell_mul_add hlast, distance]
    dsimp only
    rw [Nat.dist_self, Nat.zero_add]
    split <;> simp only [Nat.dist] <;> omega
  · -- the path turns: the next cell is below
    have hnext : columns * row + offset + 1 = columns * (row + 1) + 0 := by
      rw [Nat.mul_succ]
      omega
    rw [cell_mul_add hoffset, hnext, cell_mul_add h, distance]
    dsimp only
    have hparity : (row + 1) % 2 = 1 ↔ ¬ row % 2 = 1 := by omega
    simp only [hparity, Nat.dist]
    split <;> omega

/-- A cell is entered at its place. -/
theorem cell_entry {column : ℕ} (h : column < columns) (row : ℕ) :
    cell columns (entry columns row column) = (row, column) := by
  unfold entry
  split
  · rename_i hodd
    rw [cell_mul_add (by omega), if_pos hodd]
    congr 1
    omega
  · rename_i heven
    rw [cell_mul_add h, if_neg heven]

/-- A cell is entered at one place only. -/
theorem entry_cell (h : 0 < columns) (index : ℕ) :
    entry columns (cell columns index).1 (cell columns index).2 = index := by
  obtain ⟨row, offset, hoffset, rfl⟩ := exists_mul_add h index
  rw [cell_mul_add hoffset, entry]
  dsimp only
  split <;> omega

/-- **The path enters no cell twice.** -/
theorem cell_injective (h : 0 < columns) : Function.Injective (cell columns) := by
  intro i j hcell
  rw [← entry_cell h i, hcell, entry_cell h j]

theorem entry_lt {column : ℕ} (h : column < columns) :
    entry columns row column < columns * (row + 1) := by
  unfold entry
  rw [Nat.mul_succ]
  split <;> omega

end

/-! ## Computing a cell -/

/-- The quotient of two numbers, unless the second is zero. -/
def quotient? (a b : ℕ) : Option ℕ := if b = 0 then none else some (a / b)

/-- The remainder of two numbers, unless the second is zero. -/
def remainder? (a b : ℕ) : Option ℕ := if b = 0 then none else some (a % b)

/-- The difference of two numbers, unless the second is greater. -/
def difference? (a b : ℕ) : Option ℕ := if b ≤ a then some (a - b) else none

/-- The cell at a place, if all operations have a result. -/
def cell? (columns index : ℕ) : Option (ℕ × ℕ) := do
  let row ← quotient? index columns
  let offset ← remainder? index columns
  if row % 2 = 1 then
    let last ← difference? columns 1
    let column ← difference? last offset
    return (row, column)
  else
    return (row, offset)

/-- **Every operation has a result.** -/
theorem cell?_eq_some {columns : ℕ} (h : 0 < columns) (index : ℕ) :
    cell? columns index = some (cell columns index) := by
  have hmod := Nat.mod_lt index h
  have hcolumns : columns ≠ 0 := by omega
  have hone : 1 ≤ columns := h
  have hlast : index % columns ≤ columns - 1 := by omega
  simp only [cell?, quotient?, remainder?, difference?, if_neg hcolumns, if_pos hone, if_pos hlast,
    Option.bind_eq_bind, Option.bind_some, cell]
  split <;> rfl

/-! ## Rows -/

theorem columnCount_pos {nodes : ℕ} (h : 0 < nodes) : 0 < columnCount nodes := by
  by_contra hzero
  have hle := le_rows_mul_columns nodes
  rw [Nat.eq_zero_of_not_pos hzero] at hle
  omega

/-- **No row is empty**: the nodes do not fit into the rows above it. -/
theorem columns_mul_lt {nodes row : ℕ} (h : 0 < nodes) (hrow : row < rowCount nodes) :
    columnCount nodes * row < nodes := by
  have hlast : columnCount nodes * (rowCount nodes - 1) < nodes := by
    unfold columnCount rowCount
    split
    · omega
    · split <;> omega
  exact (Nat.mul_le_mul_left _ (by omega)).trans_lt hlast

/-! ## Layouts -/

/-- The cell in which a node stands. -/
def Placement.cell {α : Type} (p : Placement α) : ℕ × ℕ := (p.row, p.column)

/-- The nodes of the layout lie on a path that winds through its grid. -/
structure GraphLayout.Winds {α : Type} (g : Graph) (l : GraphLayout α) : Prop where
  order : l.order = g.traversal
  once : l.order.Nodup
  /-- The node at a place of the traversal stands in the cell of this place, and every
      operation that computes the cell has a result. -/
  placed : ∀ k id, l.order[k]? = some id →
    ∃ p, l.node? id = some p ∧ p.order = k ∧ cell? l.columns k = some p.cell
  /-- No other nodes are placed. -/
  listed : ∀ id p, l.node? id = some p → l.order[p.order]? = some id
  inside : ∀ id p, l.node? id = some p → p.row < l.rows ∧ p.column < l.columns
  /-- No two nodes stand in one cell. -/
  apart : ∀ id id' p p', l.node? id = some p → l.node? id' = some p' → p.cell = p'.cell → id = id'
  /-- Nodes that follow each other stand in neighbouring cells. -/
  adjacent : ∀ k id id' p p', l.order[k]? = some id → l.order[k + 1]? = some id' →
    l.node? id = some p → l.node? id' = some p' → distance p.cell p'.cell = 1
  /-- There is a node in every row. -/
  filled : g.nodes ≠ [] → ∀ row < l.rows, ∃ id p, l.node? id = some p ∧ p.row = row
  /-- There is a node in every cell of every row but the last. -/
  full : ∀ row, row + 1 < l.rows → ∀ column < l.columns,
    ∃ id p, l.node? id = some p ∧ p.cell = (row, column)

section
variable {α : Type} [Scalar α] {grid : Grid α} {banding : Banding} {stem : String} {g : Graph}
  {id : String} {p : Placement α}

/-- Where the node of an identifier stands; of several nodes the first one counts. -/
theorem node?_layoutWith_eq (g : Graph) (id : String) :
    (g.layoutWith grid banding stem).node? id = (g.node? id).map (Node.place grid banding stem
      g.traversal.length (g.traversal.idxOf id) (g.drawnLane? banding id)) := by
  rw [GraphLayout.node?, layoutWith_eq, layoutAround_nodes, get?_placements_eq]

/-- Exactly the nodes of the graph are placed. -/
theorem node?_layoutWith_isSome :
    ((g.layoutWith grid banding stem).node? id).isSome ↔ id ∈ g.nodeIds := by
  rw [node?_layoutWith_eq, Option.isSome_map, Graph.node?_isSome]

/-- A placed node has a place in the traversal, and stands in the cell of this place. -/
theorem place_of_node? (h : (g.layoutWith grid banding stem).node? id = some p) :
    g.traversal[p.order]? = some id ∧ p.cell = cell (columnCount g.traversal.length) p.order := by
  rw [node?_layoutWith_eq] at h
  obtain ⟨n, hn, rfl⟩ := Option.map_eq_some_iff.1 h
  refine ⟨?_, rfl⟩
  have hmem : id ∈ g.traversal := by
    rw [Graph.mem_traversal, ← Graph.node?_isSome, hn]
    rfl
  have hlt := List.idxOf_lt_length_of_mem hmem
  change g.traversal[g.traversal.idxOf id]? = some id
  rw [List.getElem?_eq_getElem hlt, List.getElem_idxOf]

variable (grid banding stem)

/-- The node at a place of the traversal is placed there. -/
theorem exists_node?_of_getElem? {k : ℕ} (h : g.traversal[k]? = some id) :
    ∃ p, (g.layoutWith grid banding stem).node? id = some p ∧ p.order = k := by
  have hmem : id ∈ g.nodeIds := Graph.mem_traversal.1 (List.mem_of_getElem? h)
  obtain ⟨n, hn⟩ := Option.isSome_iff_exists.1 (Graph.node?_isSome.2 hmem)
  rw [node?_layoutWith_eq, hn, Option.map_some]
  refine ⟨_, rfl, ?_⟩
  obtain ⟨hlt, rfl⟩ := List.getElem?_eq_some_iff.1 h
  exact g.nodup_traversal.idxOf_getElem k hlt

/-- The cell of every place of the traversal is taken. -/
theorem exists_node?_of_lt {k : ℕ} (hk : k < g.traversal.length) :
    ∃ id p, (g.layoutWith grid banding stem).node? id = some p ∧
      p.cell = cell (columnCount g.traversal.length) k := by
  obtain ⟨p, hp, rfl⟩ :=
    exists_node?_of_getElem? grid banding stem (List.getElem?_eq_getElem hk)
  exact ⟨_, p, hp, (place_of_node? hp).2⟩

/-- **The nodes of a graph are laid out along a winding path.** -/
theorem winds_layoutWith (g : Graph) : (g.layoutWith grid banding stem).Winds g := by
  have horder : (g.layoutWith grid banding stem).order = g.traversal := by
    rw [layoutWith_eq, layoutAround_order]
  have hrows : (g.layoutWith grid banding stem).rows = rowCount g.traversal.length := by
    rw [layoutWith_eq, layoutAround_rows]
  have hcolumns : (g.layoutWith grid banding stem).columns = columnCount g.traversal.length := by
    rw [layoutWith_eq, layoutAround_columns]
  have hpos : ∀ {k : ℕ} {id : String}, g.traversal[k]? = some id →
      0 < columnCount g.traversal.length := by
    intro k id h
    exact columnCount_pos (List.length_pos_of_mem (List.mem_of_getElem? h))
  refine ⟨horder, horder ▸ g.nodup_traversal, ?placed, ?listed, ?inside, ?apart, ?adjacent,
    ?filled, ?full⟩
  case placed =>
    intro k id hk
    rw [horder] at hk
    obtain ⟨p, hp, rfl⟩ := exists_node?_of_getElem? grid banding stem hk
    refine ⟨p, hp, rfl, ?_⟩
    rw [hcolumns, cell?_eq_some (hpos hk), (place_of_node? hp).2]
  case listed =>
    intro id p hp
    rw [horder]
    exact (place_of_node? hp).1
  case inside =>
    intro id p hp
    obtain ⟨hplace, hcell⟩ := place_of_node? hp
    have hlt := cell_lt (List.getElem?_eq_some_iff.1 hplace).1
    rw [← hcell] at hlt
    rwa [hrows, hcolumns]
  case apart =>
    intro id id' p p' hp hp' hcells
    obtain ⟨hplace, hcell⟩ := place_of_node? hp
    obtain ⟨hplace', hcell'⟩ := place_of_node? hp'
    rw [hcell, hcell'] at hcells
    rw [cell_injective (hpos hplace) hcells, hplace'] at hplace
    exact (Option.some.inj hplace).symm
  case adjacent =>
    intro k id id' p p' hk hk' hp hp'
    rw [horder] at hk hk'
    obtain ⟨q, hq, hplace⟩ := exists_node?_of_getElem? grid banding stem hk
    obtain ⟨q', hq', hplace'⟩ := exists_node?_of_getElem? grid banding stem hk'
    obtain rfl := Option.some.inj (hp.symm.trans hq)
    obtain rfl := Option.some.inj (hp'.symm.trans hq')
    rw [(place_of_node? hp).2, (place_of_node? hp').2, hplace, hplace']
    exact distance_cell_succ (hpos hk) k
  case filled =>
    intro hnodes row hrow
    obtain ⟨n, hn⟩ := List.exists_mem_of_ne_nil _ hnodes
    have hlength : 0 < g.traversal.length :=
      List.length_pos_of_mem (Graph.mem_traversal.2 (Graph.id_mem_nodeIds hn))
    -- the row is entered at a place that some node has
    obtain ⟨id, p, hp, hcell⟩ :=
      exists_node?_of_lt grid banding stem (columns_mul_lt hlength (hrows ▸ hrow))
    have hentered := cell_mul_add (columnCount_pos hlength) row
    rw [Nat.add_zero, ← hcell] at hentered
    exact ⟨id, p, hp, congrArg Prod.fst hentered⟩
  case full =>
    intro row hrow column hcolumn
    rw [hcolumns] at hcolumn
    have hlength : 0 < g.traversal.length := by
      by_contra hzero
      rw [Nat.eq_zero_of_not_pos hzero] at hcolumn
      exact absurd hcolumn (Nat.not_lt_zero _)
    have hlt := (entry_lt hcolumn).trans (columns_mul_lt hlength (hrows ▸ hrow))
    obtain ⟨id, p, hp, hcell⟩ := exists_node?_of_lt grid banding stem hlt
    exact ⟨id, p, hp, hcell.trans (cell_entry hcolumn row)⟩

end

/-- **The nodes of a layout lie on a winding path**, on all levels. -/
theorem layout_winds {α : Type} [Scalar α] (grid : Grid α) (g : Graph) :
    (g.layout grid).OnLevels GraphLayout.Winds g :=
  onLevels_layoutWith (fun g banding stem => winds_layoutWith grid banding stem g) g

/-- The nodes inside the sub-process of `enclosing` stand side by side. -/
theorem winds_enclosing : ∃ n ∈ Graph.enclosing.nodes, ∃ inner, n.children = some inner ∧
    ∃ k : GraphLayout Float32, (Graph.enclosing.layout .standard).nested? n.id = some k ∧
      k.Winds inner ∧ k.order = ["s", "t"] ∧
      ∃ p q, k.node? "s" = some p ∧ k.node? "t" = some q ∧ p.cell = (0, 0) ∧
        distance p.cell q.cell = 1 := by
  have hlevels := layout_winds (.standard : Grid Float32) Graph.enclosing
  have hn : Graph.enclosing.nodes[1] ∈ Graph.enclosing.nodes := List.getElem_mem _
  obtain ⟨k, hk, hinside⟩ := hlevels.exists_nested? (by decide) hn rfl
  have hwinds := hinside.here
  have horder : k.order = ["s", "t"] := hwinds.order.trans (by cbv)
  have hs : k.order[0]? = some "s" := by rw [horder]; rfl
  have ht : k.order[1]? = some "t" := by rw [horder]; rfl
  obtain ⟨p, hp, -, hcell⟩ := hwinds.placed 0 "s" hs
  obtain ⟨q, hq, -, -⟩ := hwinds.placed 1 "t" ht
  refine ⟨_, hn, _, rfl, k, hk, hwinds, horder, p, q, hp, hq, ?_, ?_⟩
  · rw [cell?_eq_some (Nat.zero_lt_of_lt (hwinds.inside "s" p hp).2)] at hcell
    rw [← Option.some.inj hcell]
    simp [cell]
  · exact hwinds.adjacent 0 "s" "t" p q hs ht hp hq

end Swimlane
