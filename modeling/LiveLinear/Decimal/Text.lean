import LiveLinear.Decimal.Shortest

namespace LiveLinear.Decimal

/-! # Number text

The written form of a binary value: positional near one, with an exponent far
from it. -/

structure Style where
  /-- The powers of ten of the first digit from which, and below which, a number
  is written positionally. -/
  positionalFrom : Int
  positionalBelow : Int
  /-- The least number of digits of a written exponent. -/
  exponentDigits : Nat
  unordered : String
  infinite : String

/-- Numbers as they stand in reports and messages: positional from `0.0001` up
to sixteen digits before the point, always with a place after it. -/
def plain : Style :=
  { positionalFrom := -4
    positionalBelow := 16
    exponentDigits := 2
    unordered := "nan"
    infinite := "inf" }

namespace Style

def sign (negative : Bool) : String :=
  if negative then "-" else ""

def zeros (count : Nat) : List Char :=
  List.replicate count '0'

def positional (digits : List Char) (first : Int) : List Char :=
  if first < 0 then
    ['0', '.'] ++ zeros (-first - 1).toNat ++ digits
  else
    let whole := first.toNat + 1
    let fraction := digits.drop whole
    digits.take whole ++ zeros (whole - digits.length) ++ ['.'] ++
      (if fraction.isEmpty then ['0'] else fraction)

def withExponent (style : Style) (digits : List Char) (first : Int) :
    List Char :=
  let power := Nat.toDigits 10 first.natAbs
  let fraction := digits.drop 1
  digits.take 1 ++ (if fraction.isEmpty then [] else '.' :: fraction) ++
    ['e', if first < 0 then '-' else '+'] ++
    zeros (style.exponentDigits - power.length) ++ power

def decimal (style : Style) (value : Numeral) : String :=
  let digits := Nat.toDigits 10 value.digits
  let first := value.exponent + digits.length - 1
  if style.positionalFrom ≤ first ∧ first < style.positionalBelow then
    String.ofList (positional digits first)
  else String.ofList (style.withExponent digits first)

def binary (style : Style) : Binary → String
  | .unordered => style.unordered
  | .infinite negative => sign negative ++ style.infinite
  | .finite negative significand exponent =>
      sign negative ++ style.decimal (shortest significand exponent)

end Style

def text (value : Float) : String :=
  plain.binary (.ofFloat value)

end LiveLinear.Decimal
