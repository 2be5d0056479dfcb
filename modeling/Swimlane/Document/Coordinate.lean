/-
  Swimlane — how coordinates are written.

  A whole coordinate has no fraction and is held within 64 bits.  Any other is
  rounded to two places, of its exact value, a half going to the even
  neighbour, and drops the zeros at its end.
-/
import Swimlane.Decimal.Fixed

namespace Swimlane.Document

open Decimal

/-- The whole number that a whole magnitude is. -/
def wholeOf (b : Binary) : Nat :=
  if 0 ≤ b.exponent then b.mantissa * Nat.pow 2 b.exponent.toNat
  else b.mantissa / Nat.pow 2 (-b.exponent).toNat

/-- A whole number within the range of 64 bits. -/
def wholeChars (negative : Bool) (n : Nat) : List Char :=
  if negative then
    if n = 0 then ['0'] else '-' :: digitsOf (min n (UInt64.size / 2))
  else digitsOf (min n (UInt64.size / 2 - 1))

/-- A number of hundredths without zeros at its end. -/
def hundredthsChars (n : Nat) : List Char :=
  let fraction := ((fixedFraction 2 n).reverse.dropWhile (· == '0')).reverse
  digitsOf (n / 100) ++ if fraction.isEmpty then [] else '.' :: fraction

/-- The characters of a coordinate. -/
def coordinateChars (x : Floating) : List Char :=
  match x.magnitude with
  | .notANumber => ['N', 'a', 'N']
  | .infinite => if x.negative then ['-', 'i', 'n', 'f'] else ['i', 'n', 'f']
  | .finite b =>
    if b.isWhole then wholeChars x.negative (wholeOf b)
    else (if x.negative then ['-'] else []) ++ hundredthsChars (b.fixed 2)

/-- The text of a coordinate. -/
def coordinate (x : Float32) : String := String.ofList (coordinateChars (.ofFloat32 x))

end Swimlane.Document
