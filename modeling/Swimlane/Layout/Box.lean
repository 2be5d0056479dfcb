/-
  Swimlane — boxes.

  A `Box` is an upright rectangle, given by its upper left corner and its size;
  `y` grows downwards.
-/
import Swimlane.Layout.Scalar

namespace Swimlane

/-- A point of the plane. -/
structure Point (α : Type) where
  x : α
  y : α
  deriving DecidableEq, Repr

/-- An upright rectangle. -/
structure Box (α : Type) where
  x : α
  y : α
  width : α
  height : α
  deriving DecidableEq, Repr

namespace Box

variable {α : Type} [Scalar α]

/-- The right side. -/
def right (b : Box α) : α := b.x + b.width

/-- The lower side. -/
def bottom (b : Box α) : α := b.y + b.height

/-- The centre. -/
def center (b : Box α) : Point α := ⟨b.x + Scalar.half b.width, b.y + Scalar.half b.height⟩

/-- Whether two numbers differ by at most `eps`. -/
def near (eps a b : α) : Bool := Scalar.le (Scalar.abs (a - b)) eps

/-- Whether a number lies between two others, give or take `eps`. -/
def between (eps low high a : α) : Bool := Scalar.le (low - eps) a && Scalar.le a (high + eps)

/-- Whether a point lies on one of the four sides, give or take `eps`. -/
def touches (b : Box α) (p : Point α) (eps : α) : Bool :=
  between eps b.x b.right p.x && between eps b.y b.bottom p.y &&
    (near eps p.x b.x || near eps p.x b.right || near eps p.y b.y || near eps p.y b.bottom)

/-- Whether the insides of two boxes meet. -/
def overlaps (a b : Box α) : Bool :=
  Scalar.lt a.x b.right && Scalar.lt b.x a.right && Scalar.lt a.y b.bottom &&
    Scalar.lt b.y a.bottom

/-- Overlapping is symmetric. -/
theorem overlaps_comm (a b : Box α) : a.overlaps b = b.overlaps a := by
  unfold overlaps
  cases Scalar.lt a.x b.right <;> cases Scalar.lt b.x a.right <;>
    cases Scalar.lt a.y b.bottom <;> cases Scalar.lt b.y a.bottom <;> rfl

end Box

end Swimlane
