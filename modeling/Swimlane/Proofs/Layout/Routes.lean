/-
  Swimlane — routes join outlines.

  A straight route runs along the centre line of its source, also if the centre of the
  target is a little off that line.  It still meets the target, because the tolerance is
  not greater than half the size of any node.

  * `Box.Facing a b s t`: the side `s` of `a` and the side `t` of `b` face each other.
  * `Box.Joins a b points`: the points lead from the outline of `a` to that of `b`.
    `joins_route`: those of a route do.
  * `GraphLayout.Joined g l`: every flow has its edge, and every edge joins its own two
    nodes.  `joined_layoutWith`: so it is in a layout, if the tolerance lies in its range.
  * `routes_join`: the same on all levels, with the shape of routes.
-/
import Swimlane.Proofs.Layout.Exact

namespace Swimlane

/-! ## Sides -/

/-- A side of a box. -/
inductive Side where
  | left
  | right
  | upper
  | lower
  deriving DecidableEq, Repr

namespace Box

/-- Whether a point of the outline is on a side. -/
def OnSide (b : Box ℚ) (p : Point ℚ) (side : Side) : Prop :=
  b.touches p 0 = true ∧
    match side with
    | .left => p.x = b.x
    | .right => p.x = b.right
    | .upper => p.y = b.y
    | .lower => p.y = b.bottom

/-- A side of the one box and a side of the other face each other if each of them looks
    towards the centre of the other box. -/
inductive Facing (a b : Box ℚ) : Side → Side → Prop
  | rightwards (h : a.center.x ≤ b.center.x) : Facing a b .right .left
  | leftwards (h : b.center.x ≤ a.center.x) : Facing a b .left .right
  | downwards (h : a.center.y ≤ b.center.y) : Facing a b .lower .upper
  | upwards (h : b.center.y ≤ a.center.y) : Facing a b .upper .lower

/-- The points lead from the outline of the one box to the outline of the other, between
    sides that face each other. -/
def Joins (a b : Box ℚ) (points : List (Point ℚ)) : Prop :=
  ∃ out into : Side, Facing a b out into ∧
    (∃ p, points.head? = some p ∧ a.OnSide p out) ∧
    (∃ p, points.getLast? = some p ∧ b.OnSide p into)

/-! ## Routes -/

section
variable {a b : Box ℚ} {x y tolerance : ℚ}

theorem onSide_left (hwidth : 0 ≤ b.width) (h : b.y ≤ y ∧ y ≤ b.bottom) :
    b.OnSide ⟨b.x, y⟩ .left :=
  ⟨touches_zero_iff.2 ⟨⟨le_refl _, by rw [right_eq]; linarith⟩, h, .inl rfl⟩, rfl⟩

theorem onSide_right (hwidth : 0 ≤ b.width) (h : b.y ≤ y ∧ y ≤ b.bottom) :
    b.OnSide ⟨b.right, y⟩ .right :=
  ⟨touches_zero_iff.2 ⟨⟨by rw [right_eq]; linarith, le_refl _⟩, h, .inr (.inl rfl)⟩, rfl⟩

theorem onSide_upper (hheight : 0 ≤ b.height) (h : b.x ≤ x ∧ x ≤ b.right) :
    b.OnSide ⟨x, b.y⟩ .upper :=
  ⟨touches_zero_iff.2 ⟨h, ⟨le_refl _, by rw [bottom_eq]; linarith⟩, .inr (.inr (.inl rfl))⟩, rfl⟩

theorem onSide_lower (hheight : 0 ≤ b.height) (h : b.x ≤ x ∧ x ≤ b.right) :
    b.OnSide ⟨x, b.bottom⟩ .lower :=
  ⟨touches_zero_iff.2 ⟨h, ⟨by rw [bottom_eq]; linarith, le_refl _⟩, .inr (.inr (.inr rfl))⟩, rfl⟩

/-- What is near to the centre of a box is level with it. -/
theorem level_of_near (hnear : |b.center.y - y| ≤ tolerance) (h : tolerance ≤ b.height / 2) :
    b.y ≤ y ∧ y ≤ b.bottom := by
  rw [center_y_eq] at hnear
  rw [bottom_eq]
  obtain ⟨hlow, hhigh⟩ := abs_le.1 (hnear.trans h)
  constructor <;> linarith

/-- What is near to the centre of a box is above or below it. -/
theorem upright_of_near (hnear : |b.center.x - x| ≤ tolerance) (h : tolerance ≤ b.width / 2) :
    b.x ≤ x ∧ x ≤ b.right := by
  rw [center_x_eq] at hnear
  rw [right_eq]
  obtain ⟨hlow, hhigh⟩ := abs_le.1 (hnear.trans h)
  constructor <;> linarith

/-- Points on the facing sides, each level with its box, join the boxes. -/
theorem joins_facingSides (ha : 0 ≤ a.width) (hb : 0 ≤ b.width) {points : List (Point ℚ)}
    {y y' : ℚ} (hy : a.y ≤ y ∧ y ≤ a.bottom) (hy' : b.y ≤ y' ∧ y' ≤ b.bottom)
    (hhead : points.head? = some ⟨(facingSides a b).1, y⟩)
    (hlast : points.getLast? = some ⟨(facingSides a b).2, y'⟩) : a.Joins b points := by
  unfold facingSides at hhead hlast
  split at hhead
  · rename_i hle
    rw [if_pos hle] at hlast
    exact ⟨.right, .left, .rightwards (Scalar.le_eq_true_iff.1 hle),
      ⟨_, hhead, onSide_right ha hy⟩, ⟨_, hlast, onSide_left hb hy'⟩⟩
  · rename_i hle
    rw [if_neg hle] at hlast
    have hlt : b.center.x < a.center.x := not_le.1 fun h => hle (Scalar.le_eq_true_iff.2 h)
    exact ⟨.left, .right, .leftwards hlt.le,
      ⟨_, hhead, onSide_left ha hy⟩, ⟨_, hlast, onSide_right hb hy'⟩⟩

/-- Points on the facing ends, each in line with its box, join the boxes. -/
theorem joins_facingEnds (ha : 0 ≤ a.height) (hb : 0 ≤ b.height) {points : List (Point ℚ)}
    {x x' : ℚ} (hx : a.x ≤ x ∧ x ≤ a.right) (hx' : b.x ≤ x' ∧ x' ≤ b.right)
    (hhead : points.head? = some ⟨x, (facingEnds a b).1⟩)
    (hlast : points.getLast? = some ⟨x', (facingEnds a b).2⟩) : a.Joins b points := by
  unfold facingEnds at hhead hlast
  split at hhead
  · rename_i hlt
    rw [if_pos hlt] at hlast
    exact ⟨.lower, .upper, .downwards (Scalar.lt_eq_true_iff.1 hlt).le,
      ⟨_, hhead, onSide_lower ha hx⟩, ⟨_, hlast, onSide_upper hb hx'⟩⟩
  · rename_i hlt
    rw [if_neg hlt] at hlast
    have hle : b.center.y ≤ a.center.y := not_lt.1 fun h => hlt (Scalar.lt_eq_true_iff.2 h)
    exact ⟨.upper, .lower, .upwards hle,
      ⟨_, hhead, onSide_upper ha hx⟩, ⟨_, hlast, onSide_lower hb hx'⟩⟩

/-- **A route joins its boxes.** -/
theorem joins_route (hwidth : 0 ≤ a.width) (hheight : 0 ≤ a.height) (h : 0 ≤ tolerance)
    (hwide : tolerance ≤ b.width / 2) (hhigh : tolerance ≤ b.height / 2) :
    a.Joins b (a.route b tolerance) := by
  have hwidth' : 0 ≤ b.width := by linarith
  have hheight' : 0 ≤ b.height := by linarith
  have hlevel : ∀ {c : Box ℚ}, 0 ≤ c.height → c.y ≤ c.center.y ∧ c.center.y ≤ c.bottom :=
    fun hc => level_of_near (by rw [sub_self, abs_zero]) (div_nonneg hc zero_le_two)
  have hupright : a.x ≤ a.center.x ∧ a.center.x ≤ a.right :=
    upright_of_near (by rw [sub_self, abs_zero]) (div_nonneg hwidth zero_le_two)
  unfold route
  dsimp only
  split
  · rename_i hnear
    exact joins_facingSides hwidth hwidth' (hlevel hheight)
      (level_of_near (near_iff.1 hnear) hhigh) rfl rfl
  · split
    · rename_i hnear
      exact joins_facingEnds hheight hheight' hupright
        (upright_of_near (near_iff.1 hnear) hwide) rfl rfl
    · exact joins_facingSides hwidth hwidth' (hlevel hheight) (hlevel hheight') rfl rfl

end

end Box

/-! ## Edges -/

/-- The edges of the layout are the flows of the graph, and join their nodes. -/
structure GraphLayout.Joined (g : Graph) (l : GraphLayout ℚ) : Prop where
  /-- Every flow between nodes of the graph has its edge. -/
  flows : ∀ f ∈ g.flows, f.source ∈ g.nodeIds → f.target ∈ g.nodeIds →
    ∃ e ∈ l.edges, e.flowId = f.id ∧ e.source = f.source ∧ e.target = f.target
  /-- Every edge is a flow of the graph, and joins the boxes of its own two nodes. -/
  edges : ∀ e ∈ l.edges,
    (∃ f ∈ g.flows, f.id = e.flowId ∧ f.source = e.source ∧ f.target = e.target) ∧
      ∃ p q, l.node? e.source = some p ∧ l.node? e.target = some q ∧ p.box.Joins q.box e.points

/-- The edge of a flow joins the boxes of its nodes. -/
theorem GraphLayout.Joined.exists_edge {g : Graph} {l : GraphLayout ℚ} (h : l.Joined g) {f : Flow}
    (hf : f ∈ g.flows) (hsource : f.source ∈ g.nodeIds) (htarget : f.target ∈ g.nodeIds) :
    ∃ e ∈ l.edges, e.flowId = f.id ∧ ∃ p q, l.node? f.source = some p ∧
      l.node? f.target = some q ∧ p.box.Joins q.box e.points := by
  obtain ⟨e, he, hid, hs, ht⟩ := h.flows f hf hsource htarget
  have hends := (h.edges e he).2
  rw [hs, ht] at hends
  exact ⟨e, he, hid, hends⟩

/-- A flow between placed nodes has a route. -/
theorem exists_mem_routesFrom {α : Type} [Scalar α] {tolerance : α} {stem : String}
    {nodes : List (String × Placement α)} {index : ℕ} {flows : List Flow} {f : Flow}
    (hf : f ∈ flows) (hsource : (Keyed.get? f.source nodes).isSome)
    (htarget : (Keyed.get? f.target nodes).isSome) :
    ∃ e ∈ routesFrom tolerance stem nodes index flows,
      e.flowId = f.id ∧ e.source = f.source ∧ e.target = f.target := by
  induction flows generalizing index with
  | nil => cases hf
  | cons f' rest ih =>
    rw [routesFrom]
    rcases List.mem_cons.1 hf with rfl | hf
    · obtain ⟨p, hp⟩ := Option.isSome_iff_exists.1 hsource
      obtain ⟨q, hq⟩ := Option.isSome_iff_exists.1 htarget
      rw [hp, hq]
      exact ⟨_, List.mem_cons_self, rfl, rfl, rfl⟩
    · obtain ⟨e, he, hflow⟩ := ih hf
      refine ⟨e, ?_, hflow⟩
      split
      · exact List.mem_cons_of_mem _ he
      · exact he

theorem exists_of_mem_routesFrom {α : Type} [Scalar α] {tolerance : α} {stem : String}
    {nodes : List (String × Placement α)} {index : ℕ} {flows : List Flow} {e : EdgeRoute α}
    (h : e ∈ routesFrom tolerance stem nodes index flows) :
    (∃ f ∈ flows, f.id = e.flowId ∧ f.source = e.source ∧ f.target = e.target) ∧
      ∃ p q, Keyed.get? e.source nodes = some p ∧ Keyed.get? e.target nodes = some q ∧
        e.points = p.box.route q.box tolerance := by
  induction flows generalizing index with
  | nil => cases h
  | cons f rest ih =>
    have hrest : e ∈ routesFrom tolerance stem nodes (index + 1) rest →
        (∃ f' ∈ f :: rest, f'.id = e.flowId ∧ f'.source = e.source ∧ f'.target = e.target) ∧
          ∃ p q, Keyed.get? e.source nodes = some p ∧ Keyed.get? e.target nodes = some q ∧
            e.points = p.box.route q.box tolerance := by
      intro he
      obtain ⟨⟨f', hf', hflow⟩, hends⟩ := ih he
      exact ⟨⟨f', List.mem_cons_of_mem _ hf', hflow⟩, hends⟩
    rw [routesFrom] at h
    split at h
    · rename_i p q hp hq
      rcases List.mem_cons.1 h with rfl | h
      · exact ⟨⟨f, List.mem_cons_self, rfl, rfl, rfl⟩, p, q, hp, hq, rfl⟩
      · exact hrest h
    · exact hrest h

section
variable {grid : Grid ℚ} {banding : Banding} {stem : String}

/-- Every node is at least as large as the smallest one. -/
theorem size_of_node? {g : Graph} {id : String} {p : Placement ℚ}
    (h : (g.layoutWith grid banding stem).node? id = some p) :
    36 ≤ p.box.width ∧ 36 ≤ p.box.height := by
  obtain ⟨-, kind, hbox⟩ := exists_nodeBox_of_node? h
  rw [hbox, Grid.nodeBox_width, Grid.nodeBox_height]
  exact ⟨by exact_mod_cast kind.width_bounds.1, by exact_mod_cast kind.height_bounds.1⟩

/-- **The edges of a layout join their nodes**, if the tolerance lies in its range. -/
theorem joined_layoutWith (h : grid.toleranceInRange = true) (g : Graph) :
    (g.layoutWith grid banding stem).Joined g := by
  rw [Grid.toleranceInRange, Bool.and_eq_true, Scalar.le_eq_true_iff, Scalar.le_eq_true_iff] at h
  have hlow : 0 ≤ grid.routeTolerance := h.1
  have hhigh : grid.routeTolerance ≤ 18 := h.2
  have hnode? : ∀ id, (g.layoutWith grid banding stem).node? id =
      Keyed.get? id (g.placements grid banding stem) := by
    intro id
    rw [GraphLayout.node?, layoutWith_eq, layoutAround_nodes]
  constructor
  · intro f hf hsource htarget
    rw [layoutWith_eq, layoutAround_edges]
    exact exists_mem_routesFrom hf (Graph.get?_placements_isSome.2 hsource)
      (Graph.get?_placements_isSome.2 htarget)
  · intro e he
    rw [layoutWith_eq, layoutAround_edges] at he
    obtain ⟨hflow, p, q, hp, hq, hpoints⟩ := exists_of_mem_routesFrom he
    rw [← hnode?] at hp hq
    have hsource := size_of_node? hp
    have htarget := size_of_node? hq
    refine ⟨hflow, p, q, hp, hq, ?_⟩
    rw [hpoints]
    apply Box.joins_route <;> linarith

end

/-- **Routes are orthogonal and join outlines.**  The first part holds for numbers that
    round as well. -/
theorem routes_join :
    (∀ {α : Type} [Scalar α] (source target : Box α) (tolerance : α),
      (source.route target tolerance).length ∈ [2, 3, 4] ∧
        Box.Orthogonal (source.route target tolerance)) ∧
    (∀ (source target : Box ℚ) (tolerance : ℚ), 0 ≤ source.width → 0 ≤ source.height →
      0 ≤ target.width → 0 ≤ target.height → 0 ≤ tolerance → tolerance ≤ target.width / 2 →
      tolerance ≤ target.height / 2 → source.Joins target (source.route target tolerance)) ∧
    (∀ (grid : Grid ℚ) (g : Graph), grid.toleranceInRange = true →
      (g.layout grid).OnLevels GraphLayout.Joined g) := by
  refine ⟨?shape, ?joins, ?edges⟩
  case shape =>
    intro α _ source target tolerance
    obtain ⟨hmin, hmax⟩ := Box.route_length source target tolerance
    refine ⟨?_, Box.route_orthogonal source target tolerance⟩
    simp only [List.mem_cons, List.not_mem_nil, or_false]
    omega
  case joins =>
    intro source target tolerance hwidth hheight _ _ h hwide hhigh
    exact Box.joins_route hwidth hheight h hwide hhigh
  case edges =>
    intro grid g h
    exact onLevels_layoutWith (fun g _ _ => joined_layoutWith h g) g

/-- The target is a little below the centre line of the source, and the edges of `enclosing`
    run on two levels. -/
theorem routes_join_enclosing :
    (⟨100, 100, 130, 88⟩ : Box ℚ).Joins ⟨330, 102, 130, 88⟩ [⟨230, 144⟩, ⟨330, 144⟩] ∧
    (Grid.standard : Grid ℚ).toleranceInRange = true ∧
    (Graph.enclosing.layout (.standard : Grid ℚ)).OnLevels GraphLayout.Joined Graph.enclosing ∧
    (∃ e ∈ (Graph.enclosing.layout (.standard : Grid ℚ)).edges, e.flowId = "f" ∧ ∃ p q,
      (Graph.enclosing.layout .standard).node? "s" = some p ∧
      (Graph.enclosing.layout .standard).node? "w" = some q ∧ p.box.Joins q.box e.points) ∧
    ∃ k : GraphLayout ℚ, (Graph.enclosing.layout .standard).nested? "w" = some k ∧
      ∃ e ∈ k.edges, e.flowId = "f" ∧ ∃ p q, k.node? "s" = some p ∧ k.node? "t" = some q ∧
        p.box.Joins q.box e.points := by
  obtain ⟨-, hjoins, hedges⟩ := routes_join
  have hroute : (⟨100, 100, 130, 88⟩ : Box ℚ).route ⟨330, 102, 130, 88⟩ 4 =
      [⟨230, 144⟩, ⟨330, 144⟩] := by decide +kernel
  have htolerance : (Grid.standard : Grid ℚ).toleranceInRange = true := by decide +kernel
  have hlevels := hedges .standard .enclosing htolerance
  have hn : Graph.enclosing.nodes[1] ∈ Graph.enclosing.nodes := List.getElem_mem _
  obtain ⟨k, hk, hinside⟩ := hlevels.exists_nested? (by decide) hn rfl
  refine ⟨?_, htolerance, hlevels, ?_, k, hk, ?_⟩
  · rw [← hroute]
    apply hjoins <;> norm_num
  · have hf : Graph.enclosing.flows[0] ∈ Graph.enclosing.flows := List.getElem_mem _
    exact hlevels.here.exists_edge hf (by decide) (by decide)
  · exact hinside.here.exists_edge List.mem_cons_self (by decide) (by decide)

end Swimlane
