/-
  Swimlane — decimals with a set number of places.

  `roundDiv` divides natural numbers to the nearest whole number, a half going
  to the even neighbour; `Binary.fixed` applies it to the exact value of a
  floating-point number.
-/
import Swimlane.Decimal.Binary

namespace Swimlane.Decimal

/-- `n / d` to the nearest whole number; a half goes to the even neighbour. -/
def roundDiv (n d : Nat) : Nat :=
  match compare (2 * (n % d)) d with
  | .lt => n / d
  | .gt => n / d + 1
  | .eq => if n / d % 2 = 0 then n / d else n / d + 1

/-- A rounded quotient is within half a unit of the exact one. -/
theorem roundDiv_near {n d : Nat} (hd : 0 < d) :
    2 * n ≤ 2 * (roundDiv n d * d) + d ∧ 2 * (roundDiv n d * d) ≤ 2 * n + d := by
  have h := Nat.div_add_mod n d
  have hm := Nat.mod_lt n hd
  have hs : (n / d + 1) * d = d * (n / d) + d := by rw [Nat.succ_mul, Nat.mul_comm]
  have hc : n / d * d = d * (n / d) := Nat.mul_comm _ _
  unfold roundDiv
  split
  · rename_i hlt
    rw [Nat.compare_eq_lt] at hlt
    rw [hc]
    omega
  · rename_i hgt
    rw [Nat.compare_eq_gt] at hgt
    rw [hs]
    omega
  · rename_i heq
    rw [Nat.compare_eq_eq] at heq
    split
    · rw [hc]
      omega
    · rw [hs]
      omega

/-- The number in units of `10 ^ -places`, rounded. -/
def Binary.fixed (places : Nat) (b : Binary) : Nat :=
  let s := b.scaled
  let shift := s.unit + places
  if 0 ≤ shift then s.value * Nat.pow 10 shift.toNat
  else roundDiv s.value (Nat.pow 10 (-shift).toNat)

/-- A natural number in digits. -/
def digitsOf (n : Nat) : List Char := Nat.toDigits 10 n

/-- The digits of a number of units `10 ^ -places` after the point, all of
    them. -/
def fixedFraction (places n : Nat) : List Char :=
  let ds := digitsOf (n % Nat.pow 10 places)
  List.replicate (places - ds.length) '0' ++ ds

end Swimlane.Decimal
