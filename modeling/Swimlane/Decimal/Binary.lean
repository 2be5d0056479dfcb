/-
  Swimlane — binary floating-point numbers, exactly.

  A finite binary number is `mantissa * 2 ^ exponent`.  Because `2` divides
  `10`, it is also a whole number of units `10 ^ unit`, and so are the ends of
  the interval of reals that round to it; all decisions about its decimal text
  are then made on natural numbers.

  * `Format.decode` reads the bits of a number of either width;
  * `Binary.scaled` gives the number and its interval in decimal units.
-/

namespace Swimlane.Decimal

/-! ## Decoding -/

/-- A finite magnitude `mantissa * 2 ^ exponent`. -/
structure Binary where
  mantissa : Nat
  exponent : Int
  /-- The number below is half as far away as the number above. -/
  narrowBelow : Bool
  deriving DecidableEq, Repr

/-- What the bits of a floating-point number stand for, its sign apart. -/
inductive Magnitude where
  | notANumber
  | infinite
  | finite (b : Binary)
  deriving DecidableEq, Repr

/-- A floating-point number: sign and magnitude. -/
structure Floating where
  negative : Bool
  magnitude : Magnitude
  deriving DecidableEq, Repr

/-- The widths of the two fields of a floating-point format. -/
structure Format where
  fractionBits : Nat
  exponentBits : Nat

def Format.single : Format := ⟨23, 8⟩

def Format.double : Format := ⟨52, 11⟩

/-- Reads the bits of a number.  The least exponent belongs to the numbers
    without the leading one, the greatest to infinity and to what is no
    number. -/
def Format.decode (f : Format) (bits : Nat) : Floating :=
  let fraction := bits % Nat.pow 2 f.fractionBits
  let e := bits / Nat.pow 2 f.fractionBits % Nat.pow 2 f.exponentBits
  let least : Int := 2 - Nat.pow 2 (f.exponentBits - 1) - f.fractionBits
  { negative := bits / Nat.pow 2 (f.fractionBits + f.exponentBits) % 2 = 1
    magnitude :=
      if e = 0 then .finite ⟨fraction, least, false⟩
      else if e + 1 = Nat.pow 2 f.exponentBits then
        if fraction = 0 then .infinite else .notANumber
      else
        .finite ⟨Nat.pow 2 f.fractionBits + fraction, least + (e - 1 : Nat), fraction = 0 && 1 < e⟩ }

def Floating.ofFloat32 (x : Float32) : Floating := Format.single.decode x.toBits.toNat

def Floating.ofFloat (x : Float) : Floating := Format.double.decode x.toBits.toNat

/-! ## Decimal units -/

/-- `count * 2 ^ exponent` as a whole number of units `10 ^ min exponent 0`. -/
def inUnits (count : Nat) (exponent : Int) : Nat :=
  if exponent < 0 then count * Nat.pow 5 (-exponent).toNat else count * Nat.pow 2 exponent.toNat

/-- A magnitude and the interval that rounds to it, all as multiples of
    `10 ^ unit`. -/
structure Scaled where
  value : Nat
  low : Nat
  high : Nat
  /-- Whether the two ends of the interval round to the value too. -/
  closed : Bool
  unit : Int
  deriving DecidableEq, Repr

/-- The number in decimal units.  The interval reaches half way to the
    neighbours; its ends belong to it when the mantissa is even. -/
def Binary.scaled (b : Binary) : Scaled :=
  let q := b.exponent - 2
  { value := inUnits (4 * b.mantissa) q
    low := inUnits (4 * b.mantissa - if b.narrowBelow then 1 else 2) q
    high := inUnits (4 * b.mantissa + 2) q
    closed := b.mantissa % 2 = 0
    unit := min q 0 }

/-- Whether a number of units rounds to the value. -/
def Scaled.holds (s : Scaled) (n : Nat) : Bool :=
  if s.closed then s.low ≤ n && n ≤ s.high else s.low < n && n < s.high

/-- Whether the number is whole. -/
def Binary.isWhole (b : Binary) : Bool :=
  0 ≤ b.exponent || b.mantissa % Nat.pow 2 (-b.exponent).toNat = 0

theorem inUnits_mono {m n : Nat} (h : m ≤ n) (q : Int) : inUnits m q ≤ inUnits n q := by
  unfold inUnits
  split <;> exact Nat.mul_le_mul_right _ h

/-- The value lies in its own interval. -/
theorem Binary.scaled_holds (b : Binary) (hb : 0 < b.mantissa) :
    b.scaled.holds b.scaled.value = true := by
  have hlt : ∀ {m n : Nat} (q : Int), m < n → inUnits m q < inUnits n q := by
    intro m n q h
    unfold inUnits
    split
    · exact Nat.mul_lt_mul_of_pos_right h (Nat.pow_pos (by decide))
    · exact Nat.mul_lt_mul_of_pos_right h (Nat.pow_pos (by decide))
  have low : b.scaled.low < b.scaled.value := by
    apply hlt
    split <;> omega
  have high : b.scaled.value < b.scaled.high := hlt _ (by omega)
  unfold Scaled.holds
  split <;> simp <;> omega

end Swimlane.Decimal
