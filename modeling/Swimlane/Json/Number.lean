/-
  Swimlane — JSON numbers.

  * `Json.Number` is a number as it is written: sign, digits, fraction and
    exponent.
  * `Number.numeral?` is what it stands for: an integer of 64 bits if it is
    written as one and fits, otherwise a floating-point number.  A number
    beyond the range of those stands for nothing.
  * `Number.real?` reads at most as many leading digits as fit 64 bits and
    scales them by one power of ten, so that its last bit may differ from the
    nearest number.
  * `Number.ofFloat32` writes a number with the fewest digits that identify
    it; what is neither finite nor a number has no JSON text.
-/
import Swimlane.Decimal.Shortest

namespace Swimlane.Json

/-- A number as it is written. -/
structure Number where
  negative : Bool := false
  whole : List Char
  fraction : List Char := []
  /-- Whether the exponent is negative, and its digits. -/
  exponent : Option (Bool × List Char) := none
  deriving DecidableEq, Repr

/-- The natural number that decimal digits stand for, after `n`. -/
def readDigits (n : Nat) (ds : List Char) : Nat :=
  ds.foldl (fun n d => 10 * n + (d.toNat - '0'.toNat)) n

def Number.ofNat (n : Nat) : Number := { whole := Nat.toDigits 10 n }

/-! ## Meaning -/

/-- What a number stands for. -/
inductive Numeral where
  | natural (n : Nat)
  /-- The integer `-n`. -/
  | negative (n : Nat)
  | real (x : Float)

/-- The first number that 64 bits do not hold. -/
def wordSize : Nat := UInt64.size

/-- The digits that fit 64 bits, as a number, and the digits left over. -/
def leadingDigits (n : Nat) : List Char → Nat × List Char
  | [] => (n, [])
  | d :: ds =>
    let m := readDigits n [d]
    if m < wordSize then leadingDigits m ds else (n, d :: ds)

/-- The power of ten `10 ^ n`. -/
def tenTo (n : Nat) : Float := Float.ofScientific 1 false n

/-- `significand * 10 ^ exponent`, if it is in range. -/
def scale? (significand : Nat) (exponent : Int) : Option Float :=
  let x := significand.toUInt64.toFloat
  if 0 ≤ exponent then
    if exponent ≤ 308 then
      let y := x * tenTo exponent.toNat
      if y.isInf then none else some y
    else if significand = 0 then some 0 else none
  else
    let e := (-exponent).toNat
    if e ≤ 308 then some (x / tenTo e)
    else if e ≤ 616 then some (x / tenTo 308 / tenTo (e - 308))
    else some 0

/-- The greatest exponent that is read digit by digit; a longer one settles the
    number by its sign alone. -/
def maxExponent : Nat := 2147483647

/-- The floating-point number for the written one, if it is in range. -/
def Number.real? (n : Number) : Option Float :=
  let (head, skipped) := leadingDigits 0 n.whole
  let (significand, ignored) := leadingDigits head n.fraction
  let places : Int := skipped.length - (n.fraction.length - ignored.length : Nat)
  let magnitude? :=
    match n.exponent with
    | none => scale? significand places
    | some (down, ds) =>
      let e := readDigits 0 ds
      if maxExponent < e then
        if significand = 0 || down then some 0 else none
      else scale? significand (if down then places - e else places + e)
  magnitude?.map fun x => if n.negative then -x else x

/-- What the number stands for, if it is in range. -/
def Number.numeral? (n : Number) : Option Numeral :=
  let m := readDigits 0 n.whole
  if n.fraction.isEmpty && n.exponent.isNone && !n.negative && m < wordSize then
    some (.natural m)
  else if n.fraction.isEmpty && n.exponent.isNone && n.negative && 0 < m && m ≤ wordSize / 2 then
    some (.negative m)
  else n.real?.map .real

/-- The natural number that is written, if it is one of 64 bits. -/
def Number.natural? (n : Number) : Option Nat :=
  match n.numeral? with
  | some (.natural m) => some m
  | _ => none

def Numeral.toFloat32 : Numeral → Float32
  | .natural n => n.toUInt64.toFloat32
  | .negative n => -n.toUInt64.toFloat32
  | .real x => x.toFloat32

def Numeral.toFloat : Numeral → Float
  | .natural n => n.toUInt64.toFloat
  | .negative n => -n.toUInt64.toFloat
  | .real x => x

/-! ## Writing -/

/-- A signed exponent. -/
def exponentOf (e : Int) : Bool × List Char := (e < 0, Nat.toDigits 10 e.natAbs)

/-- The number with the given digits: with a fraction from 10^-6 to below
    `10 ^ positionalBelow`, otherwise with one digit before the point and an
    exponent. -/
def Number.ofFigures (positionalBelow : Int) (negative : Bool) (f : Decimal.Figures) : Number :=
  if f.digits.isEmpty then { negative, whole := ['0'], fraction := ['0'] }
  else if -5 ≤ f.point && f.point ≤ positionalBelow then
    { negative, whole := f.whole, fraction := if f.fraction.isEmpty then ['0'] else f.fraction }
  else
    { negative, whole := f.digits.take 1, fraction := f.digits.drop 1
      exponent := some (exponentOf (f.point - 1)) }

/-- A floating-point number with the fewest digits that identify it, of two
    equally near decimals the even one. -/
def Number.ofFloating (positionalBelow : Int) (x : Decimal.Floating) : Option Number :=
  match x.magnitude with
  | .finite b => some (.ofFigures positionalBelow x.negative (b.shortest .toEven))
  | _ => none

/-- A number of 32 bits; it is positional below `10 ^ 13`. -/
def Number.ofFloat32 (x : Float32) : Option Number := Number.ofFloating 13 (.ofFloat32 x)

/-- A number of 64 bits; it is positional below `10 ^ 16`. -/
def Number.ofFloat (x : Float) : Option Number := Number.ofFloating 16 (.ofFloat x)

def Number.chars (n : Number) : List Char :=
  (if n.negative then ['-'] else []) ++ n.whole ++
    (if n.fraction.isEmpty then [] else '.' :: n.fraction) ++
    match n.exponent with
    | none => []
    | some (down, ds) => 'e' :: (if down then '-' else '+') :: ds

end Swimlane.Json
