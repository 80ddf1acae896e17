import Mathlib.Algebra.Order.Field.Basic
import Mathlib.Data.Rat.Cast.Order
import Mathlib.Tactic.Linarith
import LiveLinear.Proofs.Elimination.Outline

namespace LiveLinear

/-! # Exact arithmetic

The rational numbers as a scalar arithmetic: nothing is rounded and every number
is finite. -/

instance : Scalar ℚ where
  magnitude value := |value|
  isFinite _ := true
  decidableLE _ _ := inferInstance
  decidableLT _ _ := inferInstance

instance : OrderedScalar ℚ where
  le_self _ := le_rfl
  le_trans := le_trans
  le_total {left right} _ _ := le_total left right
  lt_iff := lt_iff_le_not_ge
  magnitude_zero := abs_zero
  magnitude_one := abs_one
  magnitude_sub_self value := by simp [Scalar.magnitude]

namespace Scalar

@[simp] theorem magnitude_rat (value : ℚ) : magnitude value = |value| := rfl

@[simp] theorem isFinite_rat (value : ℚ) : isFinite value = true := rfl

theorem negligible_iff {tolerance value : ℚ} :
    negligible tolerance value = true ↔ |value| ≤ tolerance := by
  simp [negligible]

theorem not_negligible_iff {tolerance value : ℚ} :
    negligible tolerance value = false ↔ tolerance < |value| := by
  simp [negligible]

theorem significant_iff {tolerance value : ℚ} :
    significant tolerance value = true ↔ tolerance < |value| := by
  simp [significant]

theorem not_significant_iff {tolerance value : ℚ} :
    significant tolerance value = false ↔ |value| ≤ tolerance := by
  simp [significant]

end Scalar

namespace Echelon

variable {n : Nat}

theorem Unpivoted.le {tolerance : ℚ} {state : Echelon ℚ n} {column : Fin n}
    (unpivoted : Unpivoted tolerance state column) {equation : Equation ℚ n}
    (member : equation ∈ state.active) :
    |equation.coefficient column| ≤ tolerance :=
  Scalar.negligible_iff.mp (unpivoted.negligible member)

end Echelon

end LiveLinear
