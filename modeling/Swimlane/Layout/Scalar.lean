/-
  Swimlane — the numbers that a layout is computed with.

  The formulas of the layout are written once, for every type of numbers with
  the operations of `Scalar`.  Diagrams are computed with numbers of 32 bits;
  there every operation rounds, so the order of the operations in a formula
  counts.
-/

namespace Swimlane

/-- Numbers to compute a layout with. -/
class Scalar (α : Type) extends Add α, Sub α, Mul α, Div α where
  ofNat : Nat → α
  abs : α → α
  /-- The nearest whole number; a half goes away from zero. -/
  round : α → α
  le : α → α → Bool
  lt : α → α → Bool

instance : Scalar Float32 where
  ofNat := Float32.ofNat
  abs := Float32.abs
  round := Float32.round
  le a b := a ≤ b
  lt a b := a < b

/-- Half of a number. -/
def Scalar.half {α : Type} [Scalar α] (a : α) : α := a / Scalar.ofNat 2

end Swimlane
