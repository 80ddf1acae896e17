import Mathlib.Data.Prod.Lex
import LiveLinear.Scalar

namespace LiveLinear

/-! # The order of scalars

What solving relies on in a scalar arithmetic, rounded or exact: comparison is a
total preorder of the values that are comparable at all, and zero, one and what
is left of a value taken from itself have the expected magnitudes. Addition,
multiplication and division need no law. -/

/-- A scalar arithmetic in which comparison orders the values that can be
compared. -/
class OrderedScalar (α : Type u) [Scalar α] : Prop where
  le_self : ∀ {left right : α}, left ≤ right → left ≤ left
  le_trans : ∀ {left middle right : α}, left ≤ middle → middle ≤ right →
    left ≤ right
  le_total : ∀ {left right : α}, left ≤ left → right ≤ right → left ≤ right ∨
    right ≤ left
  lt_iff : ∀ {left right : α}, left < right ↔ left ≤ right ∧ ¬right ≤ left
  magnitude_zero : Scalar.magnitude (0 : α) = 0
  magnitude_one : Scalar.magnitude (1 : α) = 1
  /-- The difference may be unordered, but it is not positive. -/
  magnitude_sub_self : ∀ value : α, ¬0 < Scalar.magnitude (value - value)

namespace Scalar

variable {α : Type u} [Scalar α] [OrderedScalar α] {tolerance : α}

theorem not_lt_of_le {left right : α} (atMost : left ≤ right) :
    ¬right < left := by
  intro less
  exact (OrderedScalar.lt_iff.mp less).2 atMost

theorem lt_of_le_of_lt {left middle right : α} (atMost : left ≤ middle)
    (less : middle < right) : left < right := by
  rcases OrderedScalar.lt_iff.mp less with ⟨below, notAbove⟩
  apply OrderedScalar.lt_iff.mpr
  refine ⟨OrderedScalar.le_trans atMost below, ?_⟩
  intro above
  exact notAbove (OrderedScalar.le_trans above atMost)

theorem not_significant_of_negligible {value : α}
    (small : negligible tolerance value = true) :
    significant tolerance value = false := by
  have atMost : magnitude value ≤ tolerance := of_decide_eq_true small
  exact decide_eq_false (not_lt_of_le atMost)

theorem negligible_zero (nonnegative : 0 ≤ tolerance) :
    negligible tolerance (0 : α) = true := by
  apply decide_eq_true
  rw [OrderedScalar.magnitude_zero]
  exact nonnegative

theorem significant_one (small : tolerance < 1) :
    significant tolerance (1 : α) = true := by
  apply decide_eq_true
  rw [OrderedScalar.magnitude_one]
  exact small

theorem not_negligible_one (small : tolerance < 1) :
    negligible tolerance (1 : α) = false := by
  apply decide_eq_false
  rw [OrderedScalar.magnitude_one]
  exact (OrderedScalar.lt_iff.mp small).2

theorem not_significant_sub_self (nonnegative : 0 ≤ tolerance) (value : α) :
    significant tolerance (value - value) = false := by
  apply decide_eq_false
  intro less
  exact OrderedScalar.magnitude_sub_self value (lt_of_le_of_lt nonnegative less)

theorem le_of_not_surpasses {candidate best bound : α}
    (kept : surpasses candidate best = false) (bounded : best ≤ bound) :
    candidate ≤ bound := by
  have comparable : best ≤ best := OrderedScalar.le_self bounded
  have atMost : candidate ≤ best := by simpa [surpasses, comparable] using kept
  exact OrderedScalar.le_trans atMost bounded

theorem le_of_surpasses {candidate best bound : α}
    (taken : surpasses candidate best = true) (bounded : candidate ≤ bound) :
    best ≤ bound := by
  simp only [surpasses, Bool.and_eq_true, decide_eq_true_eq, Bool.not_eq_true',
    decide_eq_false_iff_not] at taken
  rcases taken with ⟨comparable, notBelow⟩
  have comparableCandidate : candidate ≤ candidate :=
    OrderedScalar.le_self bounded
  rcases OrderedScalar.le_total comparable comparableCandidate with
    above | below
  · exact OrderedScalar.le_trans above bounded
  · exact absurd below notBelow

end Scalar

/-! ## Binary floating point -/

/-- The place of a float among the others: by sign, by exponent, by mantissa,
the infinities outermost and the two zeros in one place. The unordered value has
none. -/
def unpackedRank? : Float.Model.UnpackedFloat → Option (ℤ ×ₗ ℤ ×ₗ ℤ)
  | .notANumber => none
  | .infinity .negative => some (toLex (-2, toLex (0, 0)))
  | .finite .negative mantissa exponent _ =>
      some (toLex (-1, toLex (-exponent, -mantissa)))
  | .zero _ => some (toLex (0, toLex (0, 0)))
  | .finite .positive mantissa exponent _ =>
      some (toLex (1, toLex (exponent, mantissa)))
  | .infinity .positive => some (toLex (2, toLex (0, 0)))

theorem compare_toLex {α : Type u} {β : Type v} [Ord α] [Ord β]
    (left right : α × β) :
    compare (toLex left) (toLex right) =
      (compare left.1 right.1).then (compare left.2 right.2) := by
  rw [Prod.Lex.compare_def]
  rfl

theorem compare_natCast (left right : ℕ) :
    compare (left : ℤ) (right : ℤ) = compare left right := by
  rw [← cmp_eq_compare, ← cmp_eq_compare]
  exact StrictMono.cmp_map_eq (fun _ _ => Int.ofNat_lt.mpr) left right

theorem compare_neg_int (left right : ℤ) :
    compare (-left) (-right) = (compare left right).swap := by
  rcases lt_trichotomy left right with less | rfl | greater
  · rw [compare_lt_iff_lt.mpr less, compare_gt_iff_gt.mpr (Int.neg_lt_neg less)]
    rfl
  · rw [compare_eq_iff_eq.mpr rfl, compare_eq_iff_eq.mpr rfl]
    rfl
  · rw [compare_gt_iff_gt.mpr greater,
      compare_lt_iff_lt.mpr (Int.neg_lt_neg greater)]
    rfl

theorem compare_eq_unpackedRank (left right : Float.Model.UnpackedFloat) :
    left.compare right =
      (unpackedRank? left).bind fun rank =>
        (unpackedRank? right).map (compare rank) := by
  rcases left with sign | _ | sign | ⟨sign, mantissa, exponent, positive⟩ <;>
    rcases right with
    sign' | _ | sign' | ⟨sign', mantissa', exponent', positive'⟩
      <;> (try cases sign) <;> (try cases sign') <;> try rfl
  -- only two finite floats of one sign are not told apart by the first
  -- component
  case finite.finite.negative.negative =>
    change some
      ((compare exponent exponent').then (compare mantissa mantissa')).swap =
        some
        (compare (toLex (-1, toLex (-exponent, -(mantissa : ℤ))))
          (toLex (-1, toLex (-exponent', -(mantissa' : ℤ)))))
    simp only [compare_toLex, compare_neg_int, compare_natCast,
      Ordering.swap_then]
    rfl
  case finite.finite.positive.positive =>
    change some
      ((compare exponent exponent').then (compare mantissa mantissa')) =
        some
        (compare (toLex (1, toLex (exponent, (mantissa : ℤ))))
          (toLex (1, toLex (exponent', (mantissa' : ℤ)))))
    simp only [compare_toLex, compare_natCast]
    rfl

def floatRank? (value : Float) : Option (ℤ ×ₗ ℤ ×ₗ ℤ) :=
  unpackedRank? value.toModel.unpack

theorem float_le_iff {left right : Float} :
    left ≤ right ↔
      ∃ low, floatRank? left = some low ∧ ∃ high, floatRank? right = some high ∧
        low ≤ high := by
  have compared : left ≤ right ↔
      (left.toModel.unpack.compare right.toModel.unpack).any Ordering.isLE =
        true :=
    decide_eq_true_iff
  rw [compared, compare_eq_unpackedRank, ← floatRank?, ← floatRank?]
  cases floatRank? left with
  | none => simp
  | some low =>
      cases floatRank? right with
      | none => simp
      | some high => simp [← Ordering.ne_gt_iff_isLE, compare_le_iff_le]

theorem float_lt_iff {left right : Float} :
    left < right ↔
      ∃ low, floatRank? left = some low ∧ ∃ high, floatRank? right = some high ∧
        low < high := by
  have compared : left < right ↔
      (left.toModel.unpack.compare right.toModel.unpack == some .lt) = true :=
    decide_eq_true_iff
  rw [compared, compare_eq_unpackedRank, ← floatRank?, ← floatRank?]
  cases floatRank? left with
  | none => simp
  | some low =>
      cases floatRank? right with
      | none => simp
      | some high => simp [compare_lt_iff_lt]

/-- A float taken from itself leaves zero or, if it is infinite or unordered,
the unordered value. -/
theorem unpacked_sub_self (format : Float.Model.Format)
    (value : Float.Model.UnpackedFloat) :
    value.sub format value = .notANumber ∨
    value.sub format value = .zero .positive := by
  cases value with
  | notANumber => exact .inl rfl
  | infinity sign => cases sign <;> exact .inl rfl
  | zero sign => cases sign <;> exact .inr rfl
  | finite sign mantissa exponent positive =>
      let aligned : ℕ :=
        (Float.Model.UnpackedFloat.decreaseExponent mantissa exponent
          (min exponent exponent)).1
      have difference :
          (Float.Model.UnpackedFloat.finite sign mantissa exponent
            positive).sub format
              (.finite sign mantissa exponent positive) =
            .normalize format (sign.apply aligned - sign.apply aligned)
              (min exponent exponent) .positive := rfl
      rw [difference, Int.sub_self]
      exact .inr rfl

instance : OrderedScalar Float where
  le_self atMost := by
    rcases float_le_iff.mp atMost with ⟨low, ranked, -⟩
    exact float_le_iff.mpr ⟨low, ranked, low, ranked, le_refl low⟩
  le_trans first second := by
    rcases float_le_iff.mp first with
      ⟨low, ranked, middle, rankedMiddle, atMost⟩
    rcases float_le_iff.mp second with
      ⟨middle', rankedMiddle', high, rankedHigh, atMost'⟩
    cases Option.some.inj (rankedMiddle.symm.trans rankedMiddle')
    exact float_le_iff.mpr ⟨low, ranked, high, rankedHigh, atMost.trans atMost'⟩
  le_total left right := by
    rcases float_le_iff.mp left with ⟨low, ranked, -⟩
    rcases float_le_iff.mp right with ⟨high, rankedHigh, -⟩
    rcases le_total low high with atMost | atMost
    · exact .inl (float_le_iff.mpr ⟨low, ranked, high, rankedHigh, atMost⟩)
    · exact .inr (float_le_iff.mpr ⟨high, rankedHigh, low, ranked, atMost⟩)
  lt_iff {left right} := by
    simp only [float_lt_iff, float_le_iff]
    cases floatRank? left with
    | none => simp
    | some low =>
        cases floatRank? right with
        | none => simp
        | some high => simpa using le_of_lt
  magnitude_zero := rfl
  magnitude_one := rfl
  magnitude_sub_self value := by
    have difference : (value - value).toModel =
        .pack (value.toModel.unpack.sub .binary64 value.toModel.unpack) := rfl
    have magnitude :
      Scalar.magnitude (value - value) = ⟨(value - value).toModel.abs⟩ := rfl
    rw [magnitude, difference]
    rcases unpacked_sub_self .binary64 value.toModel.unpack with
      unordered | zero
    · rw [unordered]
      decide +kernel
    · rw [zero]
      decide +kernel

end LiveLinear
