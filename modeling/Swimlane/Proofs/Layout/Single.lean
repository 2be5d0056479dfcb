/-
  Swimlane — the standard grid in single precision.

  Diagrams are computed with numbers of 32 bits.  On the standard grid all sizes and
  places of nodes and lanes are whole numbers, and with as many nodes as the limits admit
  they are far too small to be rounded.

  * `Keeps a x r`: the number `x` of 32 bits is `r`, a whole number not greater than `a`.
    `Keeps.add`, `Keeps.mul`, `keeps_inset`: operations that do not round.
  * `GraphLayout.StandsFor l l'`: every number of the layout `l` is that of `l'`.
    `standsFor_layoutWith`: the layout of a graph in single precision is its exact
    layout.
-/
import Swimlane.Draft.Limits
import Swimlane.Proofs.Decimal.Whole
import Swimlane.Proofs.Layout.Exact

namespace Swimlane

/-! ## Small whole numbers -/

/-- The number is the rational number `r`. -/
def StandsFor (x : Float32) (r : ℚ) : Prop := (Decimal.Floating.ofFloat32 x).value? = some r

/-- The number is `r`, a whole number not greater than `a`. -/
def Keeps (a : ℕ) (x : Float32) (r : ℚ) : Prop := ∃ n ≤ a, x = Whole.whole n ∧ r = n

section
variable {a b : ℕ} {x y : Float32} {r s : ℚ}

theorem Keeps.standsFor (h : Keeps a x r) (ha : a < 2 ^ 23) : StandsFor x r := by
  obtain ⟨n, hn, rfl, rfl⟩ := h
  exact Whole.value?_whole (by omega)

theorem keeps_ofNat {n : ℕ} (h : n ≤ a) (ha : a < 2 ^ 23) :
    Keeps a (Scalar.ofNat n) (Scalar.ofNat n) :=
  ⟨n, h, Whole.ofNat_eq_whole (h.trans_lt ha), rfl⟩

theorem Keeps.add (hx : Keeps a x r) (hy : Keeps b y s) (h : a + b < 2 ^ 23) :
    Keeps (a + b) (x + y) (r + s) := by
  obtain ⟨m, hm, rfl, rfl⟩ := hx
  obtain ⟨n, hn, rfl, rfl⟩ := hy
  exact ⟨m + n, Nat.add_le_add hm hn, Whole.whole_add (by omega), (Nat.cast_add m n).symm⟩

theorem Keeps.mul (hx : Keeps a x r) (hy : Keeps b y s) (ha : a < 2 ^ 23) (hb : b < 2 ^ 23)
    (h : a * b < 2 ^ 23) : Keeps (a * b) (x * y) (r * s) := by
  obtain ⟨m, hm, rfl, rfl⟩ := hx
  obtain ⟨n, hn, rfl, rfl⟩ := hy
  have hmul := Nat.mul_le_mul hm hn
  exact ⟨m * n, hmul, Whole.whole_mul (by omega) (by omega) (by omega), (Nat.cast_mul m n).symm⟩

/-- Some times a measure of the grid. -/
theorem keeps_times {n measure : ℕ} (hn : n ≤ a) (ha : a < 2 ^ 23) (hmeasure : measure < 2 ^ 23)
    (h : a * measure < 2 ^ 23) : Keeps (a * measure)
      (Scalar.ofNat n * Scalar.ofNat measure) (Scalar.ofNat n * Scalar.ofNat measure) :=
  (keeps_ofNat hn ha).mul (keeps_ofNat le_rfl hmeasure) ha hmeasure h

/-- Half of the space around a node. -/
theorem keeps_inset {size n : ℕ} (hn : n ≤ size) (heven : 2 ∣ size - n) (h : size < 2 ^ 23) :
    Keeps size (Scalar.half (Scalar.ofNat size - Scalar.ofNat n))
      (Scalar.half (Scalar.ofNat size - Scalar.ofNat n)) := by
  obtain ⟨k, hk⟩ := heven
  refine ⟨k, by omega, ?_, ?_⟩
  · change (Float32.ofNat size - Float32.ofNat n) / Float32.ofNat 2 = _
    rw [Whole.ofNat_eq_whole h, Whole.ofNat_eq_whole (hn.trans_lt h),
      Whole.ofNat_eq_whole (by decide), Whole.whole_sub hn (by omega), hk,
      Whole.whole_half (by omega)]
  · have hcast : (size : ℚ) - n = 2 * k := by
      rw [← Nat.cast_sub hn, hk, Nat.cast_mul, Nat.cast_ofNat]
    change ((size : ℚ) - n) / 2 = k
    rw [hcast]
    ring

end

/-! ## Formulas -/

/-- The box is the exact one. -/
structure Box.StandsFor (b : Box Float32) (c : Box ℚ) : Prop where
  x : Swimlane.StandsFor b.x c.x
  y : Swimlane.StandsFor b.y c.y
  width : Swimlane.StandsFor b.width c.width
  height : Swimlane.StandsFor b.height c.height

namespace Grid

section
variable (banding : Banding) (lane : Option Lane) (kind : NodeKind) {rows columns row column : ℕ}

theorem keeps_bandHeight (hrows : rows ≤ 3) :
    Keeps (3 * 140) (Grid.bandHeight .standard rows) (Grid.bandHeight .standard rows) :=
  keeps_times (by omega) (by decide) (by decide) (by decide)

theorem keeps_contentX :
    Keeps (100 + 30) (Grid.contentX .standard banding) (Grid.contentX .standard banding) := by
  cases banding with
  | lanes =>
    exact .add (keeps_ofNat le_rfl (by decide)) (keeps_ofNat le_rfl (by decide)) (by decide)
  | single => exact keeps_ofNat (by decide) (by decide)

theorem keeps_contentWidth (hcolumns : columns ≤ 14) : Keeps (2 * 40 + 13 * 230 + 190)
    (Grid.contentWidth .standard columns) (Grid.contentWidth .standard columns) := by
  have hpadding : Keeps (2 * 40)
      (Scalar.ofNat 2 * Grid.standard.lanePaddingX) (Scalar.ofNat 2 * Grid.standard.lanePaddingX) :=
    keeps_times le_rfl (by decide) (by decide) (by decide)
  have hpitches : Keeps (13 * 230) (Scalar.ofNat (columns - 1) * Grid.standard.columnPitch)
      (Scalar.ofNat (columns - 1) * Grid.standard.columnPitch) :=
    keeps_times (by omega) (by decide) (by decide) (by decide)
  exact (hpadding.add hpitches (by decide)).add (keeps_ofNat le_rfl (by decide)) (by decide)

theorem keeps_bandTop (hrows : rows ≤ 3) : Keeps (60 + 3 * (3 * 140))
    (Grid.bandTop .standard rows lane) (Grid.bandTop .standard rows lane) := by
  have hlane : (lane.map Lane.index).getD 0 ≤ 3 := by
    cases lane with
    | none => decide
    | some lane => exact lane.index_le
  have horigin : Keeps 60 Grid.standard.originY Grid.standard.originY :=
    keeps_ofNat le_rfl (by decide)
  exact horigin.add ((keeps_ofNat hlane (by decide)).mul (keeps_bandHeight hrows) (by decide)
    (by decide) (by decide)) (by decide)

/-- The box of a node is not rounded. -/
theorem nodeBox_standsFor (hrows : rows ≤ 3) (hrow : row ≤ 3) (hcolumn : column ≤ 14) :
    (Grid.nodeBox .standard banding rows lane row column kind).StandsFor
      (Grid.nodeBox .standard banding rows lane row column kind) := by
  have hwidth : kind.width ≤ 190 ∧ 2 ∣ 190 - kind.width := by cases kind <;> decide
  have hheight : kind.height ≤ 140 ∧ 2 ∣ 140 - kind.height := by cases kind <;> decide
  constructor
  case x =>
    have hpadding : Keeps 40 Grid.standard.lanePaddingX Grid.standard.lanePaddingX :=
      keeps_ofNat le_rfl (by decide)
    have hpitches : Keeps (14 * 230) (Scalar.ofNat column * Grid.standard.columnPitch)
        (Scalar.ofNat column * Grid.standard.columnPitch) :=
      keeps_times hcolumn (by decide) (by decide) (by decide)
    have hslot := ((keeps_contentX banding).add hpadding (by decide)).add hpitches (by decide)
    exact (hslot.add (keeps_inset hwidth.1 hwidth.2 (by decide)) (by decide)).standsFor (by decide)
  case y =>
    have hheights : Keeps (3 * 140) (Scalar.ofNat row * Grid.standard.rowHeight)
        (Scalar.ofNat row * Grid.standard.rowHeight) :=
      keeps_times hrow (by decide) (by decide) (by decide)
    have hslot := (keeps_bandTop lane hrows).add hheights (by decide)
    exact (hslot.add (keeps_inset hheight.1 hheight.2 (by decide)) (by decide)).standsFor
      (by decide)
  case width => exact (keeps_ofNat hwidth.1 (by decide)).standsFor (by decide)
  case height => exact (keeps_ofNat hheight.1 (by decide)).standsFor (by decide)

/-- The band of a lane is not rounded. -/
theorem band_standsFor (hrows : rows ≤ 3) (hcolumns : columns ≤ 14) :
    (Box.mk (Grid.contentX .standard banding) (Grid.bandTop .standard rows lane)
      (Grid.contentWidth .standard columns) (Grid.bandHeight .standard rows)).StandsFor
      (Box.mk (Grid.contentX .standard banding) (Grid.bandTop .standard rows lane)
        (Grid.contentWidth .standard columns) (Grid.bandHeight .standard rows)) where
  x := (keeps_contentX banding).standsFor (by decide)
  y := (keeps_bandTop lane hrows).standsFor (by decide)
  width := (keeps_contentWidth hcolumns).standsFor (by decide)
  height := (keeps_bandHeight hrows).standsFor (by decide)

/-- The pool is not rounded. -/
theorem pool_standsFor (hrows : rows ≤ 3) (hcolumns : columns ≤ 14) :
    (Grid.pool .standard rows columns).StandsFor (Grid.pool .standard rows columns) := by
  have hheader : Keeps 30 Grid.standard.poolHeaderWidth Grid.standard.poolHeaderWidth :=
    keeps_ofNat le_rfl (by decide)
  have hlanes : Keeps 4 (Scalar.ofNat Lane.all.length) (Scalar.ofNat Lane.all.length) :=
    keeps_ofNat le_rfl (by decide)
  constructor
  case x => exact (keeps_ofNat le_rfl (by decide)).standsFor (by decide)
  case y => exact (keeps_ofNat le_rfl (by decide)).standsFor (by decide)
  case width => exact (hheader.add (keeps_contentWidth hcolumns) (by decide)).standsFor (by decide)
  case height =>
    exact (hlanes.mul (keeps_bandHeight hrows) (by decide) (by decide) (by decide)).standsFor
      (by decide)

end

end Grid

/-! ## Layouts -/

/-- The layout is the exact one, on all levels. -/
inductive GraphLayout.StandsFor : GraphLayout Float32 → GraphLayout ℚ → Prop
  | intro {l : GraphLayout Float32} {l' : GraphLayout ℚ}
      (nodes : ∀ id, Option.Rel (fun p p' => p.box.StandsFor p'.box) (l.node? id) (l'.node? id))
      (lanes : List.Forall₂ (fun b b' => b.lane = b'.lane ∧ b.bounds.StandsFor b'.bounds)
        l.lanes l'.lanes)
      (pool : Option.Rel Box.StandsFor l.pool l'.pool)
      (width : Swimlane.StandsFor l.width l'.width)
      (height : Swimlane.StandsFor l.height l'.height)
      (nested : ∀ id, Option.Rel GraphLayout.StandsFor (l.nested? id) (l'.nested? id)) :
      l.StandsFor l'

/-- Tables that agree agree after an entry has been set. -/
theorem Keyed.rel_insert {β γ : Type} {R : β → γ → Prop} {table : List (String × β)}
    {table' : List (String × γ)} (h : ∀ id, Option.Rel R (get? id table) (get? id table'))
    {v : β} {v' : γ} (hv : R v v') (key id : String) :
    Option.Rel R (get? id (insert key v table)) (get? id (insert key v' table')) := by
  rw [get?_insert, get?_insert]
  split
  · exact .some hv
  · exact h id

section
variable {g : Graph}

theorem length_traversal_le : g.traversal.length ≤ g.nodes.length := by
  have hsubset : g.traversal ⊆ g.nodeIds := fun id hid => Graph.mem_traversal.1 hid
  have hle := (List.subperm_of_subset g.nodup_traversal hsubset).length_le
  rwa [Graph.nodeIds, List.length_map] at hle

theorem rowCount_le (nodes : ℕ) : rowCount nodes ≤ 3 := by
  unfold rowCount
  split
  · decide
  · split <;> decide

theorem columnCount_le {nodes : ℕ} (h : nodes ≤ 40) : columnCount nodes ≤ 14 := by
  unfold columnCount rowCount
  split
  · omega
  · split <;> omega

/-- The layouts of a sub-process agree if the nodes that hold it are called the same. -/
theorem rel_innerLayout? {n : Node} (hinner : ∀ inner, n.children = some inner →
      ∀ stem : String, (inner.layoutWith .standard .single stem).StandsFor
        (inner.layoutWith .standard .single stem))
    {placed : List (String × Placement Float32)} {placed' : List (String × Placement ℚ)}
    (hplaced : (Keyed.get? n.id placed).map Placement.renderedId =
      (Keyed.get? n.id placed').map Placement.renderedId) :
    Option.Rel GraphLayout.StandsFor (n.innerLayout? .standard placed)
      (n.innerLayout? .standard placed') := by
  unfold Node.innerLayout?
  cases hchildren : n.children with
  | none => exact .none
  | some inner =>
    rw [Option.bind_some, Option.bind_some]
    cases hp : Keyed.get? n.id placed with
    | none =>
      rw [hp, Option.map_none] at hplaced
      rw [Option.map_eq_none_iff.1 hplaced.symm]
      exact .none
    | some p =>
      rw [hp, Option.map_some] at hplaced
      obtain ⟨p', hp', hname⟩ := Option.map_eq_some_iff.1 hplaced.symm
      rw [hp', Option.map_some, Option.map_some, hname]
      exact .some (hinner inner hchildren _)

theorem rel_nestedLayouts {nodes : List Node} (hinner : ∀ n ∈ nodes, ∀ inner,
      n.children = some inner → ∀ stem : String,
        (inner.layoutWith .standard .single stem).StandsFor
          (inner.layoutWith .standard .single stem))
    {placed : List (String × Placement Float32)} {placed' : List (String × Placement ℚ)}
    (hplaced : ∀ id, (Keyed.get? id placed).map Placement.renderedId =
      (Keyed.get? id placed').map Placement.renderedId)
    {table : List (String × GraphLayout Float32)} {table' : List (String × GraphLayout ℚ)}
    (htable : ∀ id, Option.Rel GraphLayout.StandsFor (Keyed.get? id table) (Keyed.get? id table'))
    (id : String) : Option.Rel GraphLayout.StandsFor
      (Keyed.get? id (nestedLayouts .standard placed table nodes))
      (Keyed.get? id (nestedLayouts .standard placed' table' nodes)) := by
  induction nodes generalizing table table' with
  | nil => exact htable id
  | cons n rest ih =>
    obtain ⟨hn, hrest⟩ := List.forall_mem_cons.1 hinner
    rw [nestedLayouts_cons_eq, nestedLayouts_cons_eq]
    apply ih hrest
    have hlayout := rel_innerLayout? hn (hplaced n.id)
    generalize n.innerLayout? .standard placed = k, n.innerLayout? .standard placed' = k'
      at hlayout ⊢
    cases hlayout with
    | none => exact htable
    | some hk => exact Keyed.rel_insert htable hk n.id

/-- **The layout of a graph in single precision is exact** on the standard grid, if no
    level has more nodes than the limits admit. -/
theorem standsFor_layoutWith
    (h : g.EachLevel fun g => g.nodes.length ≤ Limits.Item.greatest .maxNodes)
    (banding : Banding) (stem : String) :
    (g.layoutWith .standard banding stem).StandsFor (g.layoutWith .standard banding stem) := by
  induction h generalizing banding stem with
  | @intro g here inside ih =>
    have hrows := rowCount_le g.traversal.length
    have hcolumns := columnCount_le (length_traversal_le.trans here)
    rw [layoutWith_eq, layoutWith_eq]
    refine .intro ?nodes ?lanes ?pool ?width ?height ?nested
    case nodes =>
      intro id
      rw [← layoutWith_eq, ← layoutWith_eq, node?_layoutWith_eq, node?_layoutWith_eq]
      cases hnode : g.node? id with
      | none => exact .none
      | some n =>
        have hid : id ∈ g.traversal := by
          rw [Graph.mem_traversal, ← Graph.node?_isSome, hnode]
          rfl
        obtain ⟨hrow, hcolumn⟩ := cell_lt (List.idxOf_lt_length_of_mem hid)
        exact .some (Grid.nodeBox_standsFor banding _ n.kind hrows (hrow.le.trans hrows)
          (hcolumn.le.trans hcolumns))
    case lanes =>
      cases banding with
      | lanes =>
        refine List.forall₂_map_left_iff.2 (List.forall₂_map_right_iff.2 ?_)
        exact List.forall₂_same.2 fun lane _ =>
          ⟨rfl, Grid.band_standsFor .lanes (some lane) hrows hcolumns⟩
      | single => exact .nil
    case pool =>
      cases banding with
      | lanes => exact .some (Grid.pool_standsFor hrows hcolumns)
      | single => exact .none
    case width =>
      cases banding with
      | lanes => exact (Grid.pool_standsFor hrows hcolumns).width
      | single => exact (Grid.band_standsFor .single none hrows hcolumns).width
    case height =>
      cases banding with
      | lanes => exact (Grid.pool_standsFor hrows hcolumns).height
      | single => exact (Grid.band_standsFor .single none hrows hcolumns).height
    case nested =>
      intro id
      rw [GraphLayout.nested?, GraphLayout.nested?, layoutAround_nested, layoutAround_nested]
      refine rel_nestedLayouts (fun n hn inner hinner stem => ih n hn inner hinner .single stem)
        (fun id => ?_) (fun id => .none) id
      rw [get?_placements_eq, get?_placements_eq, Option.map_map, Option.map_map]
      rfl

end

end Swimlane
