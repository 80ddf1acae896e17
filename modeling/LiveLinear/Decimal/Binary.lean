namespace LiveLinear.Decimal

/-! # Binary values

What a double-precision float stands for: a sign and a whole number of units of
a power of two, or one of the values outside the numbers. -/

inductive Binary where
  | unordered
  | infinite (negative : Bool)
  /-- The number `± significand · 2 ^ exponent`. -/
  | finite (negative : Bool) (significand : Nat) (exponent : Int)
  deriving DecidableEq

namespace Binary

def leastExponent : Int := -1074

/-- The significand of the least normal number of each binade. -/
def hiddenBit : Nat := Nat.pow 2 52

def exponentFields : Nat := Nat.pow 2 11

/-- Read the three fields of the interchange format: one sign bit, eleven bits
of exponent, fifty-two bits of significand. -/
def ofBits (bits : Nat) : Binary :=
  let negative := bits.testBit 63
  let field := bits / hiddenBit % exponentFields
  let fraction := bits % hiddenBit
  if field + 1 = exponentFields then
    if fraction = 0 then .infinite negative else .unordered
  else if field = 0 then .finite negative fraction leastExponent
  else
    .finite negative (hiddenBit + fraction) (leastExponent + (field - 1 : Nat))

def ofFloat (value : Float) : Binary :=
  ofBits value.toBits.toNat

/-- One is `2 ^ 52` units of `2 ^ -52`. -/
example : ofBits 0x3ff0000000000000 = .finite false (2 ^ 52) (-52) := by decide

/-- The least positive number is one unit. -/
example : ofBits 1 = .finite false 1 (-1074) := by decide

end Binary

end LiveLinear.Decimal
