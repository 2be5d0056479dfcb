/-
  Swimlane — the fewest digits that identify a floating-point number.

  * `Figures` is a decimal by its significant digits and the place of its
    point.
  * `shortest` is the decimal with the fewest digits that rounds to the given
    number; of several such the nearest one, and of two equally near ones the
    one that the tie rule names.
  * The search goes through the decimal grids from coarse to fine.  The finest
    grid holds the number itself, so the search always ends with an answer.
-/
import Swimlane.Decimal.Binary

namespace Swimlane.Decimal

/-- The positive decimal `0.d₁d₂… * 10 ^ point` with the digits `digits`, the first and
    the last of which are not zero; no digits stand for zero. -/
structure Figures where
  digits : List Char
  point : Int
  deriving DecidableEq, Repr

/-- Which of two equally near decimals is taken. -/
inductive Tie where
  | toEven
  | awayFromZero
  deriving DecidableEq, Repr

/-! ## The search -/

/-- Of the grid points below and above a value, the one to take: the nearer one,
    or on a tie the one that the rule names. -/
def nearer (tie : Tie) (value below above : Nat) (belowEven : Bool) : Nat :=
  match compare (2 * value) (below + above) with
  | .lt => below
  | .gt => above
  | .eq => if tie = .toEven && belowEven then below else above

/-- The chosen point of the coarsest grid `10 ^ places`, …, `10 ^ 0` that has a
    neighbour of the value in its interval. -/
def searchGrids (tie : Tie) (s : Scaled) : Nat → Nat
  | 0 => s.value
  | places + 1 =>
    let grid := Nat.pow 10 (places + 1)
    let count := s.value / grid
    let below := count * grid
    let above := (count + 1) * grid
    match s.holds below, s.holds above with
    | true, true => nearer tie s.value below above (count % 2 = 0)
    | true, false => below
    | false, true => above
    | false, false => searchGrids tie s places

/-- A whole number of units `10 ^ unit` by its digits. -/
def Figures.ofUnits (n : Nat) (unit : Int) : Figures :=
  let ds := if n = 0 then [] else Nat.toDigits 10 n
  ⟨(ds.reverse.dropWhile (· == '0')).reverse, ds.length + unit⟩

/-- The fewest digits that round to the number. -/
def Binary.shortest (tie : Tie) (b : Binary) : Figures :=
  let s := b.scaled
  Figures.ofUnits (searchGrids tie s ((Nat.toDigits 10 s.value).length)) s.unit

/-- **The digits identify the number:** what the search returns rounds to the
    value. -/
theorem searchGrids_holds {tie : Tie} {s : Scaled} (hs : s.holds s.value = true) (places : Nat) :
    s.holds (searchGrids tie s places) = true := by
  induction places with
  | zero => exact hs
  | succ places ih =>
    rw [searchGrids]
    split
    · rename_i hb ha
      unfold nearer
      split
      · exact hb
      · exact ha
      · split
        · exact hb
        · exact ha
    · assumption
    · assumption
    · exact ih

/-! ## Positional form -/

/-- The digits before the point, a single zero if there are none. -/
def Figures.whole (f : Figures) : List Char :=
  if f.point ≤ 0 then ['0']
  else f.digits.take f.point.toNat ++ List.replicate (f.point.toNat - f.digits.length) '0'

/-- The digits after the point. -/
def Figures.fraction (f : Figures) : List Char :=
  if f.digits.isEmpty then []
  else List.replicate (-f.point).toNat '0' ++ f.digits.drop f.point.toNat

/-- The decimal without exponent: `18`, `0.25`, `100000000000000000000`. -/
def Figures.positional (f : Figures) : List Char :=
  f.whole ++ if f.fraction.isEmpty then [] else '.' :: f.fraction

end Swimlane.Decimal
