/-
  Swimlane — layouts in exact numbers.

  The formulas of a layout are written for every type of numbers.  Rational numbers do
  not round: with them a layout is where the formulas say.

  * `Scalar ℚ`: rational numbers to compute a layout with.
  * `Box.touches_zero_iff`, `Box.overlaps_eq_false_iff`: when a point is on an outline,
    and when two boxes keep apart.
  * `exists_nodeBox_of_node?`: the box of a node is fixed by its kind, its lane and its
    cell.
-/
import Mathlib.Algebra.Order.Round
import Mathlib.Data.Rat.Floor
import Mathlib.Tactic.Linarith
import Swimlane.Proofs.Layout.Winding

namespace Swimlane

/-! ## Rational numbers -/

instance : Scalar ℚ where
  ofNat n := n
  abs a := |a|
  round a := if 0 ≤ a then round a else -round (-a)
  le a b := a ≤ b
  lt a b := a < b

namespace Scalar

@[simp] theorem le_eq_true_iff {a b : ℚ} : Scalar.le a b = true ↔ a ≤ b := decide_eq_true_iff

@[simp] theorem lt_eq_true_iff {a b : ℚ} : Scalar.lt a b = true ↔ a < b := decide_eq_true_iff

end Scalar

/-! ## Boxes -/

namespace Box

variable {a b : Box ℚ} {p : Point ℚ}

theorem right_eq (b : Box ℚ) : b.right = b.x + b.width := rfl

theorem bottom_eq (b : Box ℚ) : b.bottom = b.y + b.height := rfl

theorem center_x_eq (b : Box ℚ) : b.center.x = b.x + b.width / 2 := rfl

theorem center_y_eq (b : Box ℚ) : b.center.y = b.y + b.height / 2 := rfl

theorem near_iff {eps r s : ℚ} : near eps r s = true ↔ |r - s| ≤ eps := decide_eq_true_iff

/-- **A point is on the outline** if it is inside and on one of the sides. -/
theorem touches_zero_iff : b.touches p 0 = true ↔ (b.x ≤ p.x ∧ p.x ≤ b.right) ∧
    (b.y ≤ p.y ∧ p.y ≤ b.bottom) ∧
    (p.x = b.x ∨ p.x = b.right ∨ p.y = b.y ∨ p.y = b.bottom) := by
  have hnear : ∀ r s : ℚ, near 0 r s = true ↔ r = s := by
    intro r s
    rw [near_iff, abs_nonpos_iff, sub_eq_zero]
  have hbetween : ∀ low high r : ℚ, between 0 low high r = true ↔ low ≤ r ∧ r ≤ high := by
    intro low high r
    rw [between, Bool.and_eq_true, Scalar.le_eq_true_iff, Scalar.le_eq_true_iff]
    change low - 0 ≤ r ∧ r ≤ high + 0 ↔ _
    rw [sub_zero, add_zero]
  simp only [touches, Bool.and_eq_true, Bool.or_eq_true, hnear, hbetween, and_assoc, or_assoc]

/-- **Two boxes keep apart** if one of them is beside the other, or above it. -/
theorem overlaps_eq_false_iff : a.overlaps b = false ↔
    b.right ≤ a.x ∨ a.right ≤ b.x ∨ b.bottom ≤ a.y ∨ a.bottom ≤ b.y := by
  rw [← Bool.not_eq_true, overlaps]
  simp only [Bool.and_eq_true, Scalar.lt_eq_true_iff, not_and_or, not_lt, or_assoc]

end Box

/-! ## Boxes of nodes -/

namespace NodeKind

theorem width_bounds (kind : NodeKind) : 36 ≤ kind.width ∧ kind.width ≤ 190 := by
  cases kind <;> decide

theorem height_bounds (kind : NodeKind) : 36 ≤ kind.height ∧ kind.height ≤ 110 := by
  cases kind <;> decide

end NodeKind

theorem Lane.index_le (lane : Lane) : lane.index ≤ 3 := by cases lane <;> decide

namespace Grid

section
variable (grid : Grid ℚ) (banding : Banding) (rows : ℕ) (lane : Option Lane) (row column : ℕ)
  (kind : NodeKind)

theorem nodeBox_width : (grid.nodeBox banding rows lane row column kind).width = kind.width := rfl

theorem nodeBox_height : (grid.nodeBox banding rows lane row column kind).height = kind.height :=
  rfl

end

end Grid

/-- **The box of a node** is fixed by its kind, its lane and its cell. -/
theorem exists_nodeBox_of_node? {α : Type} [Scalar α] {grid : Grid α} {banding : Banding}
    {stem : String} {g : Graph} {id : String} {p : Placement α}
    (h : (g.layoutWith grid banding stem).node? id = some p) :
    p.lane = g.drawnLane? banding id ∧ ∃ kind : NodeKind,
      p.box = grid.nodeBox banding (g.layoutWith grid banding stem).rows p.lane p.row p.column
        kind := by
  have hrows : (g.layoutWith grid banding stem).rows = rowCount g.traversal.length := by
    rw [layoutWith_eq, layoutAround_rows]
  rw [node?_layoutWith_eq] at h
  obtain ⟨n, -, rfl⟩ := Option.map_eq_some_iff.1 h
  rw [hrows]
  exact ⟨rfl, n.kind, rfl⟩

end Swimlane
