/-
  Swimlane — nodes keep apart.

  Every node stands in the middle of its cell.  In a roomy grid the middles of two cells
  are far enough from each other for nodes of any two kinds, and the cells of a band are
  inside it.

  * `Grid.Roomy grid`: no measure of the grid is too small for the largest node.
  * `Grid.nodeBox_center_x`, `Grid.nodeBox_center_y`: a node is in the middle of its cell.
    `nodeBox_apart`: nodes in different cells keep apart; `nodeBox_inside`: a node is
    inside its band.
  * `Grid.exists_holds_band_iff`: the bands of the lanes fill the pool.
  * `GraphLayout.Spaced grid g l`: nodes keep apart and inside what surrounds them.
    `layout_spaced`: in a layout with a roomy grid they do.
-/
import Mathlib.Tactic.Ring
import Swimlane.Proofs.Layout.Exact
import Swimlane.Proofs.Layout.Single

namespace Swimlane

/-! ## Boxes in boxes -/

namespace Box

/-- The one box is inside the other. -/
def Inside (a b : Box ℚ) : Prop :=
  (b.x ≤ a.x ∧ a.right ≤ b.right) ∧ b.y ≤ a.y ∧ a.bottom ≤ b.bottom

/-- The point is in the box or on its outline. -/
def Holds (b : Box ℚ) (p : Point ℚ) : Prop :=
  (b.x ≤ p.x ∧ p.x ≤ b.right) ∧ b.y ≤ p.y ∧ p.y ≤ b.bottom

variable {a b : Box ℚ}

/-- Boxes keep apart if their centres are far enough from each other, one way or the
    other. -/
theorem overlaps_eq_false_of_center
    (h : (a.width + b.width) / 2 ≤ |a.center.x - b.center.x| ∨
      (a.height + b.height) / 2 ≤ |a.center.y - b.center.y|) : a.overlaps b = false := by
  rw [overlaps_eq_false_iff, right_eq, right_eq, bottom_eq, bottom_eq]
  rw [center_x_eq, center_x_eq, center_y_eq, center_y_eq, le_abs', le_abs'] at h
  rcases h with (h | h) | (h | h)
  · exact .inr (.inl (by linarith))
  · exact .inl (by linarith)
  · exact .inr (.inr (.inr (by linarith)))
  · exact .inr (.inr (.inl (by linarith)))

end Box

/-! ## Middles of cells -/

/-- The grid has room for nodes of all kinds. -/
structure Grid.Roomy (grid : Grid ℚ) : Prop where
  columnPitch : 190 ≤ grid.columnPitch
  slotWidth : 190 ≤ grid.slotWidth
  rowHeight : 110 ≤ grid.rowHeight
  lanePaddingX : 0 ≤ grid.lanePaddingX
  poolHeaderWidth : 0 ≤ grid.poolHeaderWidth

/-- Different multiples of a step are at least one step from each other. -/
theorem le_abs_of_ne {step : ℚ} (hstep : 0 ≤ step) {m n : ℕ} (h : m ≠ n) :
    step ≤ |m * step - n * step| := by
  have hone : (1 : ℚ) ≤ |(m : ℚ) - n| := by
    exact_mod_cast Int.one_le_abs (sub_ne_zero.2 (Nat.cast_injective.ne h : (m : ℤ) ≠ n))
  rw [← sub_mul, abs_mul, abs_of_nonneg hstep]
  exact le_mul_of_one_le_left hstep hone

namespace Grid

section
variable (grid : Grid ℚ) (banding : Banding) (rows : ℕ) (lane : Option Lane) (row column : ℕ)
  (kind : NodeKind)

/-- The lines of a pool are counted from its upper side, `rows` of them to a lane. -/
def line (rows : ℕ) (lane : Option Lane) (row : ℕ) : ℕ :=
  (lane.map Lane.index).getD 0 * max rows 1 + row

theorem bandTop_eq : grid.bandTop rows lane =
    grid.originY + ((lane.map Lane.index).getD 0 : ℕ) * (max rows 1 : ℕ) * grid.rowHeight :=
  congrArg (grid.originY + ·) (mul_assoc ..).symm

theorem bandHeight_eq : grid.bandHeight rows = (max rows 1 : ℕ) * grid.rowHeight := rfl

theorem contentWidth_eq (columns : ℕ) : grid.contentWidth columns =
    2 * grid.lanePaddingX + (columns - 1 : ℕ) * grid.columnPitch + grid.slotWidth := rfl

theorem nodeBox_center_x : (grid.nodeBox banding rows lane row column kind).center.x =
    grid.contentX banding + grid.lanePaddingX + column * grid.columnPitch +
      grid.slotWidth / 2 := by
  rw [Box.center_x_eq, nodeBox_width]
  change grid.contentX banding + grid.lanePaddingX + column * grid.columnPitch +
    (grid.slotWidth - kind.width) / 2 + kind.width / 2 = _
  ring

theorem nodeBox_center_y : (grid.nodeBox banding rows lane row column kind).center.y =
    grid.originY + line rows lane row * grid.rowHeight + grid.rowHeight / 2 := by
  rw [Box.center_y_eq, nodeBox_height]
  change grid.bandTop rows lane + row * grid.rowHeight + (grid.rowHeight - kind.height) / 2 +
    kind.height / 2 = _
  rw [bandTop_eq, line]
  push_cast
  ring

end

section
variable {grid : Grid ℚ} {banding : Banding} {rows : ℕ} {lane lane' : Option Lane}
  {row row' column column' : ℕ} {kind kind' : NodeKind}

/-- Different rows are different lines, also in different lanes. -/
theorem line_ne (lane lane' : Option Lane) (h : row ≠ row') (hrow : row < rows)
    (hrow' : row' < rows) : line rows lane row ≠ line rows lane' row' := by
  have hmax : max rows 1 = rows := max_eq_left (by omega)
  intro heq
  rw [line, line, hmax] at heq
  have hmod := congrArg (· % rows) heq
  simp only [Nat.mul_add_mod_self_right, Nat.mod_eq_of_lt hrow, Nat.mod_eq_of_lt hrow'] at hmod
  exact h hmod

/-- **Nodes in different cells keep apart**, also in different lanes. -/
theorem nodeBox_apart (h : grid.Roomy) (hcell : (row, column) ≠ (row', column'))
    (hrow : row < rows) (hrow' : row' < rows) :
    (grid.nodeBox banding rows lane row column kind).overlaps
      (grid.nodeBox banding rows lane' row' column' kind') = false := by
  have hwidth : (kind.width : ℚ) ≤ 190 := by exact_mod_cast kind.width_bounds.2
  have hwidth' : (kind'.width : ℚ) ≤ 190 := by exact_mod_cast kind'.width_bounds.2
  have hheight : (kind.height : ℚ) ≤ 110 := by exact_mod_cast kind.height_bounds.2
  have hheight' : (kind'.height : ℚ) ≤ 110 := by exact_mod_cast kind'.height_bounds.2
  have hpitch := h.columnPitch
  have hrowHeight := h.rowHeight
  apply Box.overlaps_eq_false_of_center
  simp only [nodeBox_width, nodeBox_height, nodeBox_center_x, nodeBox_center_y,
    add_sub_add_right_eq_sub, add_sub_add_left_eq_sub]
  by_cases hrows : row = row'
  · have hcolumns : column ≠ column' := fun heq => hcell (by rw [hrows, heq])
    have hfar := le_abs_of_ne (by linarith : 0 ≤ grid.columnPitch) hcolumns
    exact .inl (by linarith)
  · have hfar := le_abs_of_ne (by linarith : 0 ≤ grid.rowHeight)
      (line_ne lane lane' hrows hrow hrow')
    exact .inr (by linarith)

end

/-! ## Bands -/

/-- The part of a band that nodes stand in. -/
def band (grid : Grid ℚ) (banding : Banding) (rows columns : ℕ) (lane : Option Lane) : Box ℚ where
  x := grid.contentX banding
  y := grid.bandTop rows lane
  width := grid.contentWidth columns
  height := grid.bandHeight rows

section
variable {grid : Grid ℚ} {banding : Banding} {rows columns : ℕ} {lane : Option Lane}
  {row column : ℕ} {kind : NodeKind}

/-- **A node is inside its band.** -/
theorem nodeBox_inside (h : grid.Roomy) (hrow : row < rows) (hcolumn : column < columns) :
    (grid.nodeBox banding rows lane row column kind).Inside
      (grid.band banding rows columns lane) := by
  have hwidth : (kind.width : ℚ) ≤ 190 := by exact_mod_cast kind.width_bounds.2
  have hheight : (kind.height : ℚ) ≤ 110 := by exact_mod_cast kind.height_bounds.2
  have hslot := h.slotWidth
  have hrowHeight := h.rowHeight
  have hpadding := h.lanePaddingX
  have hpitch : 0 ≤ grid.columnPitch := by linarith [h.columnPitch]
  have hcolumns : (column : ℚ) * grid.columnPitch ≤ (columns - 1 : ℕ) * grid.columnPitch :=
    mul_le_mul_of_nonneg_right (by exact_mod_cast Nat.le_sub_one_of_lt hcolumn) hpitch
  have hleft : 0 ≤ (column : ℚ) * grid.columnPitch := by positivity
  have hrows : ((row + 1 : ℕ) : ℚ) * grid.rowHeight ≤ (max rows 1 : ℕ) * grid.rowHeight :=
    mul_le_mul_of_nonneg_right (by exact_mod_cast le_max_of_le_left hrow) (by linarith)
  have hupper : 0 ≤ (row : ℚ) * grid.rowHeight :=
    mul_nonneg (Nat.cast_nonneg _) (by linarith)
  rw [Nat.cast_succ, add_mul, one_mul] at hrows
  -- the box reaches from its centre half its size in each direction
  have hx := grid.nodeBox_center_x banding rows lane row column kind
  have hy := grid.nodeBox_center_y banding rows lane row column kind
  rw [Box.center_x_eq, nodeBox_width] at hx
  rw [Box.center_y_eq, nodeBox_height, line, Nat.cast_add, Nat.cast_mul, add_mul] at hy
  simp only [Box.Inside, Box.right_eq, Box.bottom_eq, nodeBox_width, nodeBox_height, band,
    contentWidth_eq, bandTop_eq, bandHeight_eq]
  refine ⟨⟨?_, ?_⟩, ?_, ?_⟩ <;> linarith

theorem bandHeight_nonneg (h : grid.Roomy) (rows : ℕ) : 0 ≤ grid.bandHeight rows := by
  rw [bandHeight_eq]
  exact mul_nonneg (Nat.cast_nonneg _) (by linarith [h.rowHeight])

/-- A band is as high as its lanes are many above it. -/
theorem bandTop_some (grid : Grid ℚ) (rows : ℕ) (lane : Lane) :
    grid.bandTop rows (some lane) = grid.originY + lane.index * grid.bandHeight rows := rfl

/-- **Bands of different lanes keep apart.** -/
theorem band_apart (h : grid.Roomy) {lane lane' : Lane} (hlane : lane.index < lane'.index) :
    (grid.band banding rows columns (some lane)).overlaps
      (grid.band banding rows columns (some lane')) = false := by
  have hheight := bandHeight_nonneg h rows
  have hindex : ((lane.index + 1 : ℕ) : ℚ) * grid.bandHeight rows ≤
      lane'.index * grid.bandHeight rows :=
    mul_le_mul_of_nonneg_right (by exact_mod_cast hlane) hheight
  rw [Nat.cast_succ, add_mul, one_mul] at hindex
  rw [Box.overlaps_eq_false_iff]
  right; right; right
  simp only [Box.bottom_eq, band, bandTop_some]
  linarith

/-- Bands of one height, one below the other, cover what is as high as they are
    together. -/
theorem exists_le_iff {height : ℚ} (h : 0 ≤ height) (top y : ℚ) (last : ℕ) :
    (∃ k ≤ last, top + k * height ≤ y ∧ y ≤ top + k * height + height) ↔
      top ≤ y ∧ y ≤ top + last * height + height := by
  induction last with
  | zero => simp
  | succ last ih =>
    have hlast : 0 ≤ (last : ℚ) * height := by positivity
    simp only [Nat.le_succ_iff, or_and_right, exists_or, ih, exists_eq_left, Nat.cast_succ,
      add_mul, one_mul]
    constructor
    · rintro (⟨hlow, hhigh⟩ | ⟨hlow, hhigh⟩) <;> constructor <;> linarith
    · rintro ⟨hlow, hhigh⟩
      rcases le_total y (top + last * height + height) with habove | hbelow
      · exact .inl ⟨hlow, habove⟩
      · exact .inr ⟨by linarith, by linarith⟩

/-- The lanes cover what is as high as four of them. -/
theorem exists_lane_iff {height : ℚ} (h : 0 ≤ height) (top y : ℚ) :
    (∃ lane : Lane, top + lane.index * height ≤ y ∧ y ≤ top + lane.index * height + height) ↔
      top ≤ y ∧ y ≤ top + 4 * height := by
  have hlane : ∀ k ≤ 3, ∃ lane ∈ Lane.all, lane.index = k := by decide
  have hsum : top + 4 * height = top + (3 : ℕ) * height + height := by
    push_cast
    ring
  rw [hsum, ← exists_le_iff h]
  constructor
  · rintro ⟨lane, hy⟩
    exact ⟨lane.index, lane.index_le, hy⟩
  · rintro ⟨k, hk, hy⟩
    obtain ⟨lane, -, rfl⟩ := hlane k hk
    exact ⟨lane, hy⟩

/-- **The bands of the lanes fill the pool** beside its header. -/
theorem exists_holds_band_iff (h : grid.Roomy) (rows columns : ℕ) (p : Point ℚ) :
    (∃ lane : Lane, (grid.band .lanes rows columns (some lane)).Holds p) ↔
      (grid.pool rows columns).Holds p ∧ grid.originX + grid.poolHeaderWidth ≤ p.x := by
  have hheader := h.poolHeaderWidth
  have hlanes := exists_lane_iff (bandHeight_nonneg h rows) grid.originY p.y
  have hcontentX : grid.contentX .lanes = grid.originX + grid.poolHeaderWidth := rfl
  have hright : (grid.pool rows columns).right =
      grid.originX + (grid.poolHeaderWidth + grid.contentWidth columns) := rfl
  have hbottom : (grid.pool rows columns).bottom = grid.originY + 4 * grid.bandHeight rows := rfl
  simp only [Box.Holds, hright, hbottom, Box.right_eq, Box.bottom_eq, band, bandTop_some,
    hcontentX, exists_and_left, hlanes]
  constructor
  · rintro ⟨⟨hleft, hright⟩, hy⟩
    exact ⟨⟨⟨by change grid.originX ≤ p.x; linarith, by linarith⟩, hy⟩, hleft⟩
  · rintro ⟨⟨⟨-, hright⟩, hy⟩, hleft⟩
    exact ⟨⟨hleft, by linarith⟩, hy⟩

end

end Grid

/-! ## Layouts -/

/-- No two nodes of the layout overlap. -/
def GraphLayout.Apart (l : GraphLayout ℚ) : Prop :=
  ∀ id id' p p', l.node? id = some p → l.node? id' = some p' → id ≠ id' →
    p.box.overlaps p'.box = false

/-- The nodes of the layout keep apart, and inside what surrounds them. -/
structure GraphLayout.Spaced (grid : Grid ℚ) (g : Graph) (l : GraphLayout ℚ) : Prop where
  /-- Every node of the graph stands somewhere. -/
  placed : ∀ n ∈ g.nodes, (l.node? n.id).isSome
  apart : l.Apart
  /-- Every node is inside the band of its own lane. -/
  banded : ∀ id p, l.node? id = some p → ∃ b ∈ l.lanes,
    g.laneOf? id = some b.lane ∧ p.lane = some b.lane ∧ p.box.Inside b.bounds
  /-- There is one band for each lane. -/
  lanes : l.lanes.map LaneBand.lane = Lane.all
  lanesApart : l.lanes.Pairwise fun b b' => b.bounds.overlaps b'.bounds = false
  /-- The bands fill the pool beside its header. -/
  filled : ∃ pool, l.pool = some pool ∧ ∀ p : Point ℚ, (∃ b ∈ l.lanes, b.bounds.Holds p) ↔
    pool.Holds p ∧ pool.x + grid.poolHeaderWidth ≤ p.x
  /-- The nodes of sub-processes keep apart too, and inside the size of their layout. -/
  nested : ∀ k : GraphLayout ℚ, k.Within l → k.Apart ∧ ∀ id p, k.node? id = some p →
    p.box.Inside ⟨grid.originX, grid.originY, k.width, k.height⟩

section
variable {grid : Grid ℚ} {banding : Banding} {stem : String} {g : Graph}

theorem apart_layoutWith (h : grid.Roomy) : (g.layoutWith grid banding stem).Apart := by
  intro id id' p p' hp hp' hne
  have hwinds := winds_layoutWith grid banding stem g
  obtain ⟨-, kind, hbox⟩ := exists_nodeBox_of_node? hp
  obtain ⟨-, kind', hbox'⟩ := exists_nodeBox_of_node? hp'
  rw [hbox, hbox']
  exact Grid.nodeBox_apart h (fun hcell => hne (hwinds.apart id id' p p' hp hp' hcell))
    (hwinds.inside id p hp).1 (hwinds.inside id' p' hp').1

/-- A node is inside the band of the lane in which it is drawn. -/
theorem inside_band_of_node? (h : grid.Roomy) {id : String} {p : Placement ℚ}
    (hp : (g.layoutWith grid banding stem).node? id = some p) :
    p.box.Inside (grid.band banding (g.layoutWith grid banding stem).rows
      (g.layoutWith grid banding stem).columns (g.drawnLane? banding id)) := by
  obtain ⟨hlane, kind, hbox⟩ := exists_nodeBox_of_node? hp
  obtain ⟨hrow, hcolumn⟩ := (winds_layoutWith grid banding stem g).inside id p hp
  rw [hbox, ← hlane]
  exact Grid.nodeBox_inside h hrow hcolumn

/-- The band of a sub-process has the size of its layout. -/
theorem band_single_eq (grid : Grid ℚ) (stem : String) (g : Graph) :
    grid.band .single (g.layoutWith grid .single stem).rows
        (g.layoutWith grid .single stem).columns none =
      ⟨grid.originX, grid.originY, (g.layoutWith grid .single stem).width,
        (g.layoutWith grid .single stem).height⟩ := by
  have htop : ∀ rows, grid.bandTop rows none = grid.originY := by
    intro rows
    rw [Grid.bandTop_eq, Option.map_none, Option.getD_none, Nat.cast_zero, zero_mul, zero_mul,
      add_zero]
  rw [Grid.band, htop, layoutWith_eq, layoutAround_rows, layoutAround_columns]
  rfl

/-- The lanes of a layout are drawn in the bands of the grid. -/
theorem lanes_layout_eq (grid : Grid ℚ) (g : Graph) : (g.layout grid).lanes =
    Lane.all.map fun lane =>
      { lane
        bounds := grid.band .lanes (g.layout grid).rows (g.layout grid).columns (some lane)
        members := g.laneMembers (g.layout grid).nodes lane } := by
  rw [Graph.layout, layoutWith_eq, layoutAround_rows, layoutAround_columns, layoutAround_nodes]
  rfl

end

theorem spaced_layout {grid : Grid ℚ} (h : grid.Roomy) (g : Graph) :
    (g.layout grid).Spaced grid g := by
  refine ⟨?placed, apart_layoutWith h, ?banded, ?lanes, ?lanesApart, ?filled, ?nested⟩
  case placed =>
    intro n hn
    exact node?_layoutWith_isSome.2 (Graph.id_mem_nodeIds hn)
  case banded =>
    intro id p hp
    have hid : id ∈ g.nodeIds := node?_layoutWith_isSome.1 (Option.isSome_of_eq_some hp)
    obtain ⟨lane, hlane⟩ := Option.isSome_iff_exists.1 (Graph.laneOf?_isSome.2 hid)
    have hdrawn : g.drawnLane? .lanes id = some lane := hlane
    have hinside := inside_band_of_node? h hp
    rw [hdrawn] at hinside
    obtain ⟨hown, -⟩ := exists_nodeBox_of_node? hp
    rw [lanes_layout_eq]
    exact ⟨_, List.mem_map_of_mem (Lane.mem_all lane), hlane, hown.trans hdrawn, hinside⟩
  case lanes =>
    exact map_lane_layout grid g
  case lanesApart =>
    rw [lanes_layout_eq, List.pairwise_map]
    have hindex : Lane.all.Pairwise fun lane lane' => lane.index < lane'.index := by decide
    exact hindex.imp fun hlt => Grid.band_apart h hlt
  case filled =>
    have hpool : (g.layout grid).pool =
        some (grid.pool (g.layout grid).rows (g.layout grid).columns) := by
      rw [Graph.layout, layoutWith_eq, layoutAround_rows, layoutAround_columns]
      rfl
    refine ⟨_, hpool, fun p => ?_⟩
    simp only [lanes_layout_eq, List.mem_map, exists_exists_eq_and, Lane.mem_all, true_and]
    exact Grid.exists_holds_band_iff h _ _ p
  case nested =>
    intro k hk
    obtain ⟨inner, stem, rfl⟩ := exists_layoutWith_of_within hk rfl
    refine ⟨apart_layoutWith h, fun id p hp => ?_⟩
    rw [← band_single_eq]
    exact inside_band_of_node? h hp

/-- **The nodes of a layout keep apart**, and inside what surrounds them.  On the standard
    grid nothing is rounded: the layout in single precision is the same one. -/
theorem layout_spaced :
    (∀ grid : Grid ℚ, grid.Roomy → ∀ g : Graph, (g.layout grid).Spaced grid g) ∧
    (∀ g : Graph, (g.EachLevel fun g => g.nodes.length ≤ Limits.Item.greatest .maxNodes) →
      (g.layout (.standard : Grid Float32)).StandsFor (g.layout .standard)) :=
  ⟨fun _ h g => spaced_layout h g, fun _ h => standsFor_layoutWith h .lanes ""⟩

/-- The nodes of `enclosing` keep apart on the standard grid, on both levels. -/
theorem spaced_enclosing : (Grid.standard : Grid ℚ).Roomy ∧
    (Graph.enclosing.layout (.standard : Grid ℚ)).Spaced .standard Graph.enclosing ∧
    (Graph.enclosing.layout (.standard : Grid Float32)).StandsFor
      (Graph.enclosing.layout .standard) := by
  have hroomy : (Grid.standard : Grid ℚ).Roomy := by
    constructor <;> decide +kernel
  have hsmall : Graph.enclosing.EachLevel fun g =>
      g.nodes.length ≤ Limits.Item.greatest .maxNodes := by
    refine .intro (by decide) fun n hn inner hinner => ?_
    simp only [Graph.enclosing, List.mem_cons, List.not_mem_nil, or_false] at hn
    rcases hn with rfl | rfl | rfl
    · cases hinner
    · cases hinner
      refine .of_leaf (by decide) fun n hn => ?_
      simp only [List.mem_cons, List.not_mem_nil, or_false] at hn
      rcases hn with rfl | rfl <;> rfl
    · cases hinner
  obtain ⟨hspaced, hstands⟩ := layout_spaced
  exact ⟨hroomy, hspaced .standard hroomy .enclosing, hstands .enclosing hsmall⟩

end Swimlane
