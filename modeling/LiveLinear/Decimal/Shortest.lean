import LiveLinear.Decimal.Binary

namespace LiveLinear.Decimal

/-! # Shortest digits

The fewest decimal digits that identify a binary value among its neighbours, and
of those the closest. All arithmetic is on natural numbers. -/

structure Numeral where
  digits : Nat
  exponent : Int
  deriving DecidableEq

/-- A positive fraction together with the interval of fractions that round to
it, all over one denominator. The ends belong to the interval if `closed` is
set. -/
structure Rounding where
  numerator : Nat
  denominator : Nat
  lower : Nat
  upper : Nat
  closed : Bool

namespace Rounding

/-- The values that round to `significand · 2 ^ exponent` reach halfway to both
neighbours; below a power of two the neighbour is half as far. A halfway value
rounds to the even significand. -/
def ofBinary (significand : Nat) (exponent : Int) : Rounding :=
  let scale := Nat.pow 2 exponent.toNat
  let narrow := significand = Binary.hiddenBit ∧ Binary.leastExponent < exponent
  { numerator := 4 * significand * scale
    denominator := 4 * Nat.pow 2 (-exponent).toNat
    lower := (4 * significand - if narrow then 1 else 2) * scale
    upper := (4 * significand + 2) * scale
    closed := significand % 2 == 0 }

def digitCount (value : Nat) : Nat :=
  (Nat.toDigits 10 value).length

def firstExponent (rounding : Rounding) : Int :=
  if rounding.denominator ≤ rounding.numerator then
    (digitCount (rounding.numerator / rounding.denominator) : Int) - 1
  else
    let count := digitCount (rounding.denominator / rounding.numerator)
    if rounding.denominator ≤ rounding.numerator * Nat.pow 10 (count - 1) then
      1 - (count : Int)
    else -(count : Int)

def admits (rounding : Rounding) (decimal : Numeral) : Bool :=
  let value :=
    decimal.digits * Nat.pow 10 decimal.exponent.toNat * rounding.denominator
  let scale := Nat.pow 10 (-decimal.exponent).toNat
  if rounding.closed then
    decide (rounding.lower * scale ≤ value) &&
      decide (value ≤ rounding.upper * scale)
  else
    decide (rounding.lower * scale < value) &&
      decide (value < rounding.upper * scale)

/-- Of the two neighbours of the fraction on the grid `10 ^ exponent`, the
admitted one; if both are admitted, the closer; at equal distance, the even. -/
def onGrid (rounding : Rounding) (exponent : Int) : Option Numeral :=
  let numerator := rounding.numerator * Nat.pow 10 (-exponent).toNat
  let denominator := rounding.denominator * Nat.pow 10 exponent.toNat
  let below : Numeral := ⟨numerator / denominator, exponent⟩
  let above : Numeral := ⟨numerator / denominator + 1, exponent⟩
  let remainder := 2 * (numerator % denominator)
  let nearer :=
    if remainder < denominator then below
    else if denominator < remainder then above
    else if below.digits % 2 = 0 then below
    else above
  if rounding.admits nearer then some nearer
  else if rounding.admits below then some below
  else if rounding.admits above then some above
  else none

end Rounding

def sufficientDigits : Nat := 17

def Numeral.trim (decimal : Numeral) : Nat → Numeral
  | 0 => decimal
  | limit + 1 =>
      if decimal.digits ≠ 0 ∧ decimal.digits % 10 = 0 then
        trim ⟨decimal.digits / 10, decimal.exponent + 1⟩ limit
      else decimal

/-- The fewest digits that read back as `significand · 2 ^ exponent`: the grids
are tried from one digit on, and the first with an admitted point wins. -/
def shortest (significand : Nat) (exponent : Int) : Numeral :=
  if significand = 0 then ⟨0, 0⟩
  else
    let rounding := Rounding.ofBinary significand exponent
    let first := rounding.firstExponent
    let found := (List.range sufficientDigits).findSome? fun (extra : Nat) =>
      rounding.onGrid (first - extra)
    (found.getD ⟨0, 0⟩).trim sufficientDigits

end LiveLinear.Decimal
