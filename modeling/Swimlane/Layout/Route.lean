/-
  Swimlane — routes between boxes.

  A route is a chain of horizontal and vertical segments from the outline of
  one box to the outline of another.

  * Centres on one level, up to the tolerance: one horizontal segment between
    the sides that face each other.
  * Centres above each other, up to the tolerance: a vertical run between the
    facing sides, with a bend half way.
  * Otherwise: out of the facing side, across at half the distance, into the
    facing side.

  `route_length`: a route has two, three or four points.  `route_orthogonal`:
  each two consecutive points share a coordinate.
-/
import Swimlane.Layout.Box

namespace Swimlane.Box

variable {α : Type} [Scalar α]

/-- Where a route leaves the source and enters the target sideways: at the
    sides that face each other. -/
def facingSides (source target : Box α) : α × α :=
  if Scalar.le source.center.x target.center.x then (source.right, target.x)
  else (source.x, target.right)

/-- Where a route leaves the source and enters the target upright. -/
def facingEnds (source target : Box α) : α × α :=
  if Scalar.lt source.center.y target.center.y then (source.bottom, target.y)
  else (source.y, target.bottom)

/-- The whole number next to the middle of two numbers. -/
def middle (a b : α) : α := Scalar.round (Scalar.half (a + b))

/-- The route from one box to another. -/
def route (source target : Box α) (tolerance : α) : List (Point α) :=
  let s := source.center
  let t := target.center
  if near tolerance t.y s.y then
    let (out, into) := facingSides source target
    [⟨out, s.y⟩, ⟨into, s.y⟩]
  else if near tolerance t.x s.x then
    let (out, into) := facingEnds source target
    [⟨s.x, out⟩, ⟨s.x, middle out into⟩, ⟨s.x, into⟩]
  else
    let (out, into) := facingSides source target
    [⟨out, s.y⟩, ⟨middle out into, s.y⟩, ⟨middle out into, t.y⟩, ⟨into, t.y⟩]

/-- Each two consecutive points share a coordinate. -/
def Orthogonal : List (Point α) → Prop
  | p :: q :: rest => (p.x = q.x ∨ p.y = q.y) ∧ Orthogonal (q :: rest)
  | _ => True

/-- **A route is orthogonal.** -/
theorem route_orthogonal (source target : Box α) (tolerance : α) :
    Orthogonal (route source target tolerance) := by
  unfold route
  dsimp only
  split
  · exact ⟨Or.inr rfl, trivial⟩
  · split
    · exact ⟨Or.inl rfl, Or.inl rfl, trivial⟩
    · exact ⟨Or.inr rfl, Or.inl rfl, Or.inr rfl, trivial⟩

/-- **A route has two to four points.** -/
theorem route_length (source target : Box α) (tolerance : α) :
    2 ≤ (route source target tolerance).length ∧ (route source target tolerance).length ≤ 4 := by
  unfold route
  dsimp only
  split
  · simp
  · split <;> simp

end Swimlane.Box
