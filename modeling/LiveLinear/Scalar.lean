namespace LiveLinear

/-! # Scalars

The arithmetic in which equations are written and solved. Nothing here asks for
laws: binary floating point, with its rounding, its infinities and its unordered
value, is a scalar arithmetic in the same way as an exact field is. -/

/-- The operations that solving needs. An unordered value, if there is one, is a
value that is not `≤` itself; every comparison with it is false. -/
class Scalar (α : Type u) extends Zero α, One α, Add α, Sub α, Mul α, Div α,
    LE α, LT α where
  /-- The distance to zero. -/
  magnitude : α → α
  /-- Whether the value may be stored in an equation. -/
  isFinite : α → Bool
  decidableLE : ∀ left right : α, Decidable (left ≤ right)
  decidableLT : ∀ left right : α, Decidable (left < right)

namespace Scalar

instance [Scalar α] (left right : α) : Decidable (left ≤ right) :=
  decidableLE left right

instance [Scalar α] (left right : α) : Decidable (left < right) :=
  decidableLT left right

def negligible [Scalar α] (tolerance value : α) : Bool :=
  decide (magnitude value ≤ tolerance)

/-- Whether a value certainly differs from zero. An unordered value is neither
negligible nor significant. -/
def significant [Scalar α] (tolerance value : α) : Bool :=
  decide (tolerance < magnitude value)

/-- Whether `candidate` takes the place of the largest value seen so far. An
equal value does not, and once an unordered value is held nothing replaces
it. -/
def surpasses [Scalar α] (candidate best : α) : Bool :=
  decide (best ≤ best) && !decide (candidate ≤ best)

end Scalar

/-- Binary floating point with 53 digits, each operation rounded once. -/
instance : Scalar Float where
  zero := 0.0
  one := 1.0
  add := Float.add
  sub := Float.sub
  mul := Float.mul
  div := Float.div
  le left right := Float.le left right = true
  lt left right := Float.lt left right = true
  magnitude := Float.abs
  isFinite := Float.isFinite
  decidableLE _ _ := inferInstanceAs (Decidable (_ = true))
  decidableLT _ _ := inferInstanceAs (Decidable (_ = true))

end LiveLinear
