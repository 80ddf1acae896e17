import LiveLinear.Decimal.Shortest
import Mathlib.Algebra.Order.Field.Power
import Mathlib.Data.Rat.Cast.Order
import Mathlib.Tactic.FieldSimp
import Mathlib.Tactic.Linarith
import Mathlib.Tactic.NormNum
import Mathlib.Tactic.Positivity
import Mathlib.Tactic.Ring

namespace LiveLinear.Decimal

/-! # Shortest digits read back

What `shortest` gives rounds to the binary value that it was computed for.
Nothing with fewer digits does, and nothing with as few digits is closer. -/

/-- The number that a numeral stands for. -/
def Numeral.value (decimal : Numeral) : ℚ :=
  decimal.digits * 10 ^ decimal.exponent

theorem zpow_eq_div {base : ℚ} (nonzero : base ≠ 0) (exponent : Int) :
    base ^ exponent = base ^ exponent.toNat / base ^ (-exponent).toNat := by
  rw [← zpow_natCast, ← zpow_natCast, ← zpow_sub₀ nonzero,
    Int.toNat_sub_toNat_neg]

namespace Rounding

variable {rounding : Rounding} {decimal : Numeral} {exponent : Int}
  {first number last : ℚ}

/-! ## Rounding -/

/-- The fraction itself. -/
def value (rounding : Rounding) : ℚ :=
  rounding.numerator / rounding.denominator

/-- Whether a number rounds to the fraction. -/
def Holds (rounding : Rounding) (number : ℚ) : Prop :=
  if rounding.closed = true then
    rounding.lower ≤ number * rounding.denominator ∧
      number * rounding.denominator ≤ rounding.upper
  else
    rounding.lower < number * rounding.denominator ∧
      number * rounding.denominator < rounding.upper

structure Proper (rounding : Rounding) : Prop where
  numerator : 0 < rounding.numerator
  denominator : 0 < rounding.denominator
  holds : rounding.Holds rounding.value

theorem Holds.of_lt (lower : rounding.lower < number * rounding.denominator)
    (upper : number * rounding.denominator < rounding.upper) :
    rounding.Holds number := by
  unfold Holds
  split
  · exact ⟨lower.le, upper.le⟩
  · exact ⟨lower, upper⟩

theorem Holds.between (left : rounding.Holds first)
    (right : rounding.Holds last) (lower : first ≤ number)
    (upper : number ≤ last) : rounding.Holds number := by
  have scaledLower :
      first * rounding.denominator ≤ number * rounding.denominator :=
    mul_le_mul_of_nonneg_right lower (Nat.cast_nonneg _)
  have scaledUpper :
      number * rounding.denominator ≤ last * rounding.denominator :=
    mul_le_mul_of_nonneg_right upper (Nat.cast_nonneg _)
  unfold Holds at left right ⊢
  split at left <;> rename_i closed
  · rw [if_pos closed] at right ⊢
    exact ⟨left.1.trans scaledLower, scaledUpper.trans right.2⟩
  · rw [if_neg closed] at right ⊢
    exact ⟨left.1.trans_le scaledLower, scaledUpper.trans_lt right.2⟩

theorem admits_iff : rounding.admits decimal = true ↔
    rounding.Holds decimal.value := by
  have scale : (0 : ℚ) < 10 ^ (-decimal.exponent).toNat := by positivity
  have scaled : decimal.value * rounding.denominator =
      (decimal.digits * Nat.pow 10 decimal.exponent.toNat *
        rounding.denominator : Nat) / 10 ^ (-decimal.exponent).toNat := by
    rw [Numeral.value, zpow_eq_div (by norm_num)]
    push_cast [Nat.pow_eq]
    ring
  unfold admits Holds
  simp only [scaled, le_div_iff₀ scale, div_le_iff₀ scale, lt_div_iff₀ scale,
    div_lt_iff₀ scale]
  split <;> simp only [Bool.and_eq_true, decide_eq_true_eq, Nat.pow_eq] <;>
    norm_cast

/-! ## Points of a grid -/

def floor (rounding : Rounding) (exponent : Int) : Nat :=
  rounding.numerator * Nat.pow 10 (-exponent).toNat /
    (rounding.denominator * Nat.pow 10 exponent.toNat)

/-- The closer one of the two points around the fraction. -/
def nearer (rounding : Rounding) (exponent : Int) : Numeral :=
  let numerator := rounding.numerator * Nat.pow 10 (-exponent).toNat
  let denominator := rounding.denominator * Nat.pow 10 exponent.toNat
  let below : Numeral := ⟨rounding.floor exponent, exponent⟩
  let above : Numeral := ⟨rounding.floor exponent + 1, exponent⟩
  let remainder := 2 * (numerator % denominator)
  if remainder < denominator then below
  else if denominator < remainder then above
  else if below.digits % 2 = 0 then below
  else above

theorem onGrid_eq (rounding : Rounding) (exponent : Int) :
    rounding.onGrid exponent =
      if rounding.admits (rounding.nearer exponent) = true then
        some (rounding.nearer exponent)
      else if rounding.admits ⟨rounding.floor exponent, exponent⟩ = true then
        some ⟨rounding.floor exponent, exponent⟩
      else
        if rounding.admits ⟨rounding.floor exponent + 1, exponent⟩ = true then
        some ⟨rounding.floor exponent + 1, exponent⟩
      else none :=
  rfl

def units (rounding : Rounding) (exponent : Int) : ℚ :=
  rounding.value / 10 ^ exponent

theorem units_mul (rounding : Rounding) (exponent : Int) :
    rounding.units exponent * 10 ^ exponent = rounding.value :=
  div_mul_cancel₀ _ (zpow_ne_zero _ (by norm_num))

theorem units_eq (positive : 0 < rounding.denominator) (exponent : Int) :
    rounding.units exponent = rounding.floor exponent +
      (rounding.numerator * Nat.pow 10 (-exponent).toNat %
          (rounding.denominator * Nat.pow 10 exponent.toNat) : Nat) /
        (rounding.denominator * Nat.pow 10 exponent.toNat : Nat) := by
  have scale : 0 < rounding.denominator * Nat.pow 10 exponent.toNat :=
    Nat.mul_pos positive (Nat.pow_pos (by decide))
  have quotient : rounding.units exponent =
      (rounding.numerator * Nat.pow 10 (-exponent).toNat : Nat) /
        (rounding.denominator * Nat.pow 10 exponent.toNat : Nat) := by
    have nonzero : (rounding.denominator : ℚ) ≠ 0 :=
      Nat.cast_ne_zero.mpr positive.ne'
    rw [units, value, zpow_eq_div (by norm_num)]
    push_cast [Nat.pow_eq]
    field_simp
  have parts :=
    Nat.div_add_mod (rounding.numerator * Nat.pow 10 (-exponent).toNat)
      (rounding.denominator * Nat.pow 10 exponent.toNat)
  have nonzero :
      ((rounding.denominator * Nat.pow 10 exponent.toNat : Nat) : ℚ) ≠ 0 :=
    Nat.cast_ne_zero.mpr scale.ne'
  rw [quotient, floor, eq_comm, ← mul_right_inj' nonzero, mul_add,
    mul_div_cancel₀ _ nonzero, mul_div_cancel₀ _ nonzero]
  exact_mod_cast parts

theorem value_grid_cases (rounding : Rounding) (exponent : Int) (digits : Nat) :
    Numeral.value ⟨digits, exponent⟩ ≤
        Numeral.value ⟨rounding.floor exponent, exponent⟩ ∨
      Numeral.value ⟨rounding.floor exponent + 1, exponent⟩ ≤
        Numeral.value ⟨digits, exponent⟩ := by
  have mono : ∀ {fewer more : Nat}, fewer ≤ more →
      Numeral.value ⟨fewer, exponent⟩ ≤ Numeral.value ⟨more, exponent⟩ :=
    fun le => mul_le_mul_of_nonneg_right (Nat.cast_le.mpr le) (by positivity)
  rcases Nat.lt_or_ge (rounding.floor exponent) digits with above | below
  · exact .inr (mono above)
  · exact .inl (mono below)

section

variable (positive : 0 < rounding.denominator) (exponent : Int)
include positive

theorem floor_le : (rounding.floor exponent : ℚ) ≤ rounding.units exponent := by
  rw [units_eq positive]
  exact le_add_of_nonneg_right (by positivity)

theorem lt_floor_succ :
    rounding.units exponent < rounding.floor exponent + 1 := by
  have scale : 0 < rounding.denominator * Nat.pow 10 exponent.toNat :=
    Nat.mul_pos positive (Nat.pow_pos (by decide))
  rw [units_eq positive, add_lt_add_iff_left,
    div_lt_one (Nat.cast_pos.mpr scale)]
  exact_mod_cast Nat.mod_lt _ scale

theorem value_floor_le :
    Numeral.value ⟨rounding.floor exponent, exponent⟩ ≤ rounding.value := by
  rw [← rounding.units_mul exponent]
  exact mul_le_mul_of_nonneg_right (floor_le positive exponent) (by positivity)

theorem lt_value_floor_succ :
    rounding.value < Numeral.value ⟨rounding.floor exponent + 1, exponent⟩ := by
  rw [← rounding.units_mul exponent, Numeral.value]
  push_cast
  exact mul_lt_mul_of_pos_right (lt_floor_succ positive exponent)
    (by positivity)

omit positive in
theorem value_succ (digits : Nat) :
    Numeral.value ⟨digits + 1, exponent⟩ =
      Numeral.value ⟨digits, exponent⟩ + 10 ^ exponent := by
  rw [Numeral.value, Numeral.value]
  push_cast
  ring

/-- The closer point is at most half a unit away. -/
theorem nearer_cases :
    (rounding.nearer exponent = ⟨rounding.floor exponent, exponent⟩ ∧
      rounding.value ≤
        Numeral.value ⟨rounding.floor exponent, exponent⟩ + 10 ^ exponent / 2) ∨
    (rounding.nearer exponent = ⟨rounding.floor exponent + 1, exponent⟩ ∧
      Numeral.value ⟨rounding.floor exponent, exponent⟩ + 10 ^ exponent / 2 ≤
        rounding.value) := by
  have scale : 0 < rounding.denominator * Nat.pow 10 exponent.toNat :=
    Nat.mul_pos positive (Nat.pow_pos (by decide))
  have unit : (0 : ℚ) < 10 ^ exponent := by positivity
  have middle :
      Numeral.value ⟨rounding.floor exponent, exponent⟩ + 10 ^ exponent /
        2 = (rounding.floor exponent + 1 / 2) * 10 ^ exponent := by
    rw [Numeral.value]
    ring
  rw [middle, ← rounding.units_mul exponent, mul_le_mul_iff_left₀ unit,
    mul_le_mul_iff_left₀ unit, units_eq positive]
  simp only [nearer]
  generalize rounding.numerator * Nat.pow 10 (-exponent).toNat %
    (rounding.denominator * Nat.pow 10 exponent.toNat) = remainder at *
  generalize rounding.denominator * Nat.pow 10 exponent.toNat = denominator at *
  have scale : (0 : ℚ) < denominator := Nat.cast_pos.mpr scale
  rw [add_le_add_iff_left, add_le_add_iff_left, div_le_div_iff₀ scale two_pos,
    div_le_div_iff₀ two_pos scale, one_mul, mul_comm (remainder : ℚ)]
  norm_cast
  split_ifs with less more even
  · exact .inl ⟨rfl, less.le⟩
  · exact .inr ⟨rfl, more.le⟩
  · exact .inl ⟨rfl, Nat.le_of_not_lt more⟩
  · exact .inr ⟨rfl, Nat.le_of_not_lt less⟩

/-- No point of the grid is closer than the one that is `nearer`. -/
theorem abs_sub_nearer_le (digits : Nat) :
    |rounding.value - (rounding.nearer exponent).value| ≤
      |rounding.value - Numeral.value ⟨digits, exponent⟩| := by
  have below := value_floor_le positive exponent
  have above := (lt_value_floor_succ positive exponent).le
  have step := value_succ exponent (rounding.floor exponent)
  have sides := rounding.value_grid_cases exponent digits
  rcases nearer_cases positive exponent with
    ⟨isNearer, close⟩ | ⟨isNearer, close⟩
  · rw [isNearer, abs_of_nonneg (by linarith), le_abs]
    rcases sides with side | side
    · exact .inl (by linarith)
    · exact .inr (by linarith)
  · rw [isNearer, abs_of_nonpos (by linarith), le_abs]
    rcases sides with side | side
    · exact .inl (by linarith)
    · exact .inr (by linarith)

theorem abs_sub_nearer_le_half :
    |rounding.value - (rounding.nearer exponent).value| ≤
      10 ^ exponent / 2 := by
  have below := value_floor_le positive exponent
  have above := (lt_value_floor_succ positive exponent).le
  have step := value_succ exponent (rounding.floor exponent)
  rcases nearer_cases positive exponent with
    ⟨isNearer, close⟩ | ⟨isNearer, close⟩
  · rw [isNearer, abs_of_nonneg (by linarith)]
    linarith
  · rw [isNearer, abs_of_nonpos (by linarith)]
    linarith

end

/-! ## What a grid offers -/

theorem onGrid_cases (found : rounding.onGrid exponent = some decimal) :
    rounding.Holds decimal.value ∧
      (decimal = rounding.nearer exponent ∨
        ¬rounding.Holds (rounding.nearer exponent).value ∧
          (decimal = ⟨rounding.floor exponent, exponent⟩ ∨
            decimal = ⟨rounding.floor exponent + 1, exponent⟩)) := by
  rw [onGrid_eq] at found
  split_ifs at found with isNearer isBelow isAbove
  · cases found
    exact ⟨admits_iff.mp isNearer, .inl rfl⟩
  · cases found
    exact ⟨admits_iff.mp isBelow,
      .inr ⟨fun holds => isNearer (admits_iff.mpr holds), .inl rfl⟩⟩
  · cases found
    exact ⟨admits_iff.mp isAbove,
      .inr ⟨fun holds => isNearer (admits_iff.mpr holds), .inr rfl⟩⟩

section

variable (proper : rounding.Proper)
include proper

theorem digits_onGrid (found : rounding.onGrid exponent = some decimal) :
    decimal = ⟨rounding.floor exponent, exponent⟩ ∨
      decimal = ⟨rounding.floor exponent + 1, exponent⟩ := by
  rcases (onGrid_cases found).2 with rfl | ⟨_, cases⟩
  · rcases nearer_cases proper.denominator exponent with
      ⟨isNearer, _⟩ | ⟨isNearer, _⟩
    · exact .inl isNearer
    · exact .inr isNearer
  · exact cases

theorem onGrid_eq_none (none : rounding.onGrid exponent = none) (digits : Nat) :
    ¬rounding.Holds (Numeral.value ⟨digits, exponent⟩) := by
  intro holds
  rw [onGrid_eq] at none
  split_ifs at none with isNearer isBelow isAbove
  rcases rounding.value_grid_cases exponent digits with below | above
  · exact isBelow (admits_iff.mpr (holds.between proper.holds below
      (value_floor_le proper.denominator exponent)))
  · exact isAbove (admits_iff.mpr (proper.holds.between holds
      (lt_value_floor_succ proper.denominator exponent).le above))

/-- Of the points that round to the fraction, none is closer than the one
found. -/
theorem abs_sub_onGrid_le (found : rounding.onGrid exponent = some decimal)
    {digits : Nat} (holds : rounding.Holds (Numeral.value ⟨digits, exponent⟩)) :
    |rounding.value - decimal.value| ≤
      |rounding.value - Numeral.value ⟨digits, exponent⟩| := by
  have below := value_floor_le proper.denominator exponent
  have above := (lt_value_floor_succ proper.denominator exponent).le
  have sides := rounding.value_grid_cases exponent digits
  rcases (onGrid_cases found).2 with rfl | ⟨refused, rfl | rfl⟩
  · exact abs_sub_nearer_le proper.denominator exponent digits
  · rw [abs_of_nonneg (by linarith), le_abs]
    rcases sides with side | side
    · exact .inl (by linarith)
    · rcases nearer_cases proper.denominator exponent with
        ⟨isNearer, _⟩ | ⟨isNearer, _⟩
      · rw [isNearer] at refused
        exact absurd (onGrid_cases found).1 refused
      · rw [isNearer] at refused
        exact absurd (proper.holds.between holds above side) refused
  · rw [abs_of_nonpos (by linarith), le_abs]
    rcases sides with side | side
    · rcases nearer_cases proper.denominator exponent with
        ⟨isNearer, _⟩ | ⟨isNearer, _⟩
      · rw [isNearer] at refused
        exact absurd (holds.between proper.holds side below) refused
      · rw [isNearer] at refused
        exact absurd (onGrid_cases found).1 refused
    · exact .inr (by linarith)

end

/-! ## The first digit -/

theorem pow_le_iff_lt_digitCount {value count : Nat} (positive : 0 < value) :
    10 ^ count ≤ value ↔ count < digitCount value := by
  rcases Nat.eq_zero_or_pos count with rfl | some
  · exact iff_of_true positive Nat.length_toDigits_pos
  · rw [← not_iff_not, Nat.not_le, Nat.not_lt, digitCount,
      Nat.length_toDigits_le_iff (by decide) some]

theorem digitCount_spec {value : Nat} (positive : 0 < value) :
    10 ^ (digitCount value - 1) ≤ value ∧ value < 10 ^ digitCount value := by
  have count : 0 < digitCount value := Nat.length_toDigits_pos
  refine ⟨(pow_le_iff_lt_digitCount positive).mpr (by omega), ?_⟩
  exact Nat.not_le.mp fun le =>
    Nat.lt_irrefl _ ((pow_le_iff_lt_digitCount positive).mp le)

theorem firstExponent_spec (proper : rounding.Proper) :
    10 ^ rounding.firstExponent ≤ rounding.value ∧
      rounding.value < 10 ^ (rounding.firstExponent + 1) := by
  rcases proper with ⟨numerator, denominator, _⟩
  have scale : (0 : ℚ) < rounding.denominator := Nat.cast_pos.mpr denominator
  have small : ∀ count : Nat,
      rounding.denominator ≤ rounding.numerator * 10 ^ count →
      (10 : ℚ) ^ (-count : ℤ) ≤ rounding.value := by
    intro count le
    rw [value, zpow_neg, zpow_natCast, inv_le_iff_one_le_mul₀ (by positivity),
      div_mul_eq_mul_div, one_le_div scale]
    exact_mod_cast le
  have large : ∀ count : Nat,
      rounding.numerator * 10 ^ count < rounding.denominator →
      rounding.value < (10 : ℚ) ^ (-count : ℤ) := by
    intro count lt
    rw [value, zpow_neg, zpow_natCast,
      lt_inv_comm₀ (by positivity) (by positivity), inv_div,
      lt_div_iff₀ (by positivity), mul_comm]
    exact_mod_cast lt
  simp only [firstExponent]
  split
  · next whole =>
      have quotient := Nat.div_pos whole denominator
      have count : 0 < digitCount (rounding.numerator / rounding.denominator) :=
        Nat.length_toDigits_pos
      rcases digitCount_spec quotient with ⟨low, high⟩
      generalize digitCount (rounding.numerator / rounding.denominator) =
        length at *
      rw [Nat.le_div_iff_mul_le denominator] at low
      rw [Nat.div_lt_iff_lt_mul denominator] at high
      rw [← Nat.cast_pred count, ← Nat.cast_succ, zpow_natCast, zpow_natCast,
        Nat.succ_eq_add_one, Nat.sub_add_cancel count, value, le_div_iff₀ scale,
        div_lt_iff₀ scale]
      exact ⟨by exact_mod_cast low, by exact_mod_cast high⟩
  · next part =>
      have quotient := Nat.div_pos (Nat.le_of_not_le part) numerator
      have count : 0 < digitCount (rounding.denominator / rounding.numerator) :=
        Nat.length_toDigits_pos
      rcases digitCount_spec quotient with ⟨low, high⟩
      generalize digitCount (rounding.denominator / rounding.numerator) =
        length at *
      rw [Nat.le_div_iff_mul_le numerator, Nat.mul_comm] at low
      rw [Nat.div_lt_iff_lt_mul numerator, Nat.mul_comm] at high
      have pred : ((length - 1 : Nat) : ℤ) = length - 1 := Nat.cast_pred count
      split
      · next reaches =>
          have isLow := small (length - 1) reaches
          have isPower : rounding.value = 10 ^ (-(length - 1 : Nat) : ℤ) := by
            have same :
                rounding.denominator = rounding.numerator * 10 ^ (length - 1) :=
              Nat.le_antisymm reaches low
            rw [value, same, zpow_neg, zpow_natCast]
            push_cast
            field_simp
          rw [pred, neg_sub] at isLow isPower
          refine ⟨isLow, ?_⟩
          rw [isPower]
          exact zpow_lt_zpow_right₀ (by norm_num) (by omega)
      · next misses =>
          have below := large (length - 1) (Nat.lt_of_not_le misses)
          rw [pred, neg_sub, sub_eq_neg_add] at below
          exact ⟨small length high.le, below⟩

/-! ## Binary values -/

variable {significand : Nat} {power : Int}

theorem value_ofBinary (significand : Nat) (power : Int) :
    (ofBinary significand power).value = significand * 2 ^ power := by
  rw [value, ofBinary, zpow_eq_div (by norm_num)]
  push_cast [Nat.pow_eq]
  field_simp

/-- A number rounds to a value that is less than half a unit away. Just below a
power of two, it may be no more than a quarter. -/
theorem holds_ofBinary (positive : 0 < significand)
    (lower : (significand - 1 / 2 : ℚ) * 2 ^ power < number)
    (tight : significand = Binary.hiddenBit →
      (significand - 1 / 4 : ℚ) * 2 ^ power < number)
    (upper : number < (significand + 1 / 2 : ℚ) * 2 ^ power) :
    (ofBinary significand power).Holds number := by
  have scale : (0 : ℚ) < 2 ^ (-power).toNat := by positivity
  have below : ∀ share : Nat, share ≤ 4 * significand →
      (significand - share / 4 : ℚ) * 2 ^ power < number →
        ((4 * significand - share) * Nat.pow 2 power.toNat : Nat) <
          number * (4 * Nat.pow 2 (-power).toNat : Nat) := by
    intro share fits less
    rw [zpow_eq_div (by norm_num), mul_div_assoc', div_lt_iff₀ scale] at less
    push_cast [Nat.pow_eq, Nat.cast_sub fits]
    linarith
  refine .of_lt ?_ ?_
  · by_cases narrow : significand = Binary.hiddenBit ∧
      Binary.leastExponent < power
    · simp only [ofBinary, if_pos narrow]
      exact below 1 (by omega) (by simpa using tight narrow.1)
    · simp only [ofBinary, if_neg narrow]
      exact below 2 (by omega) (by norm_num at lower ⊢; exact lower)
  · rw [zpow_eq_div (by norm_num), mul_div_assoc', lt_div_iff₀ scale] at upper
    simp only [ofBinary]
    push_cast [Nat.pow_eq]
    linarith

theorem proper_ofBinary (positive : 0 < significand) :
    (ofBinary significand power).Proper := by
  have unit : (0 : ℚ) < 2 ^ power := by positivity
  refine ⟨?_, ?_, holds_ofBinary positive ?_ (fun _ => ?_) ?_⟩
  · exact Nat.mul_pos (by omega) (Nat.pow_pos (by decide))
  · exact Nat.mul_pos (by decide) (Nat.pow_pos (by decide))
  all_goals
    rw [value_ofBinary]
    exact mul_lt_mul_of_pos_right (by linarith) unit

/-- Seventeen digits are enough. -/
theorem onGrid_isSome (positive : 0 < significand)
    (bounded : significand < 2 * Binary.hiddenBit) :
    ((ofBinary significand power).onGrid
      ((ofBinary significand power).firstExponent - 16)).isSome = true := by
  have proper : (ofBinary significand power).Proper := proper_ofBinary positive
  have first := (firstExponent_spec proper).1
  have close := abs_sub_nearer_le_half proper.denominator
    ((ofBinary significand power).firstExponent - 16)
  have small : (10 : ℚ) ^ ((ofBinary significand power).firstExponent - 16) =
      10 ^ (ofBinary significand power).firstExponent / 10 ^ 16 := by
    rw [zpow_sub₀ (by norm_num)]
    norm_cast
  have unit : (0 : ℚ) < 2 ^ power := by positivity
  have bounded : (significand : ℚ) < 10 ^ 16 := by
    have bounded : significand < 10 ^ 16 := bounded.trans (by decide)
    exact_mod_cast bounded
  rw [value_ofBinary] at first close
  rw [small, abs_le] at close
  have scaled : (significand : ℚ) * 2 ^ power < 10 ^ 16 * 2 ^ power :=
    mul_lt_mul_of_pos_right bounded unit
  have holds :
      (ofBinary significand power).Holds
        ((ofBinary significand power).nearer
          ((ofBinary significand power).firstExponent - 16)).value := by
    refine holds_ofBinary positive (by linarith) (fun isLeast => ?_)
      (by linarith)
    have isLeast : (significand : ℚ) = 2 ^ 52 := by
      rw [isLeast]
      norm_num [Binary.hiddenBit]
    rw [isLeast] at first close ⊢
    linarith
  rw [onGrid_eq, if_pos (admits_iff.mpr holds)]
  rfl

end Rounding

/-! ## Digits -/

namespace Numeral

variable {decimal : Numeral}

theorem value_trim (decimal : Numeral) (limit : Nat) :
    (decimal.trim limit).value = decimal.value := by
  induction limit generalizing decimal with
  | zero => rfl
  | succ limit induction =>
      rw [trim]
      split
      · next zeros =>
          have whole :
              (decimal.digits : ℚ) = (decimal.digits / 10 : Nat) * 10 := by
            exact_mod_cast
              (Nat.div_mul_cancel (Nat.dvd_of_mod_eq_zero zeros.2)).symm
          rw [induction, value, value, zpow_add_one₀ (by norm_num), whole]
          ring
      · rfl

theorem digits_trim_le (decimal : Numeral) (limit : Nat) :
    (decimal.trim limit).digits ≤ decimal.digits := by
  induction limit generalizing decimal with
  | zero => exact Nat.le_refl _
  | succ limit induction =>
      rw [trim]
      split
      · exact (induction _).trans (Nat.div_le_self ..)
      · exact Nat.le_refl _

theorem trim_pow {count limit : Nat} (within : count ≤ limit) (exponent : Int) :
    (⟨10 ^ count, exponent⟩ : Numeral).trim limit = ⟨1, exponent + count⟩ := by
  induction limit generalizing count exponent with
  | zero =>
      cases Nat.le_zero.mp within
      simp [trim]
  | succ limit induction =>
      rw [trim]
      cases count with
      | zero => simp
      | succ count =>
          have zeros : 10 ^ (count + 1) % 10 = 0 := by
            rw [Nat.pow_succ, Nat.mul_mod_left]
          rw [if_pos ⟨(Nat.pow_pos (by decide)).ne', zeros⟩, Nat.pow_succ,
            Nat.mul_div_cancel _ (by decide),
            induction (Nat.le_of_succ_le_succ within)]
          congr 1
          push_cast
          ring

theorem exists_digits {exponent : Int} (finer : exponent ≤ decimal.exponent) :
    ∃ digits, Numeral.value ⟨digits, exponent⟩ = decimal.value := by
  refine ⟨decimal.digits * 10 ^ (decimal.exponent - exponent).toNat, ?_⟩
  rw [value, value]
  push_cast
  rw [← zpow_natCast, Int.toNat_of_nonneg (by omega), mul_assoc,
    ← zpow_add₀ (by norm_num), sub_add_cancel]

theorem lt_exponent {count : Nat} {first : Int} (some : 0 < count)
    (few : Rounding.digitCount decimal.digits ≤ count)
    (large : 10 ^ first ≤ decimal.value) :
    first - count < decimal.exponent := by
  have bound := (Nat.length_toDigits_le_iff (by decide) some).mp few
  have bound : (decimal.digits : ℚ) < 10 ^ (count : ℤ) := by
    rw [zpow_natCast]
    exact_mod_cast bound
  have less : (10 : ℚ) ^ first < 10 ^ (count + decimal.exponent) := by
    rw [zpow_add₀ (by norm_num)]
    exact large.trans_lt (mul_lt_mul_of_pos_right bound (by positivity))
  have order := (zpow_lt_zpow_iff_right₀ (by norm_num)).mp less
  omega

end Numeral

theorem findSome?_range {β : Type} {find : Nat → Option β} {count : Nat}
    (some : ∃ index < count, (find index).isSome = true) :
    ∃ index < count, (∀ earlier < index, find earlier = none) ∧
      ∃ found, find index = Option.some found ∧
        (List.range count).findSome? find = Option.some found := by
  induction count with
  | zero =>
      rcases some with ⟨_, impossible, _⟩
      cases impossible
  | succ count induction =>
      rw [List.range_succ, List.findSome?_append]
      by_cases before : ∃ index < count, (find index).isSome = true
      · rcases induction before with
          ⟨index, within, first, found, isFound, isFirst⟩
        exact ⟨index, Nat.lt_succ_of_lt within, first, found,
          isFound, by rw [isFirst]; rfl⟩
      · have first : ∀ earlier < count, find earlier = none :=
            fun earlier less =>
          Option.not_isSome_iff_eq_none.mp fun present =>
            before ⟨earlier, less, present⟩
        have none : (List.range count).findSome? find = Option.none :=
          List.findSome?_eq_none_iff.mpr fun index member =>
            first index (List.mem_range.mp member)
        rcases some with ⟨index, within, present⟩
        have isLast : index = count :=
          (Nat.lt_succ_iff_lt_or_eq.mp within).resolve_left fun less =>
            before ⟨index, less, present⟩
        rw [isLast] at present
        rcases Option.isSome_iff_exists.mp present with ⟨found, isFound⟩
        exact ⟨count, Nat.lt_succ_self count, first, found,
          isFound, by simp [none, isFound]⟩

namespace Rounding

section

variable {rounding : Rounding} (proper : rounding.Proper) {extra : Nat}
  {found other : Numeral}
  (first : ∀ fewer < extra,
    rounding.onGrid (rounding.firstExponent - (fewer : Nat)) = none)
  (isFound : rounding.onGrid (rounding.firstExponent - (extra : Nat)) =
    some found)

theorem holds_first (proper : rounding.Proper)
    (holds : rounding.Holds other.value)
    (small : other.value < 10 ^ rounding.firstExponent) :
    rounding.Holds (Numeral.value ⟨1, rounding.firstExponent⟩) := by
  refine holds.between proper.holds ?_ ?_
  · simpa [Numeral.value] using small.le
  · simpa [Numeral.value] using (firstExponent_spec proper).1

include proper first in
/-- No number with fewer digits rounds to the fraction. -/
theorem lt_digitCount (holds : rounding.Holds other.value) :
    extra < digitCount other.digits := by
  by_contra few
  have some : 0 < digitCount other.digits := Nat.length_toDigits_pos
  have more : 0 < extra := by omega
  rcases lt_or_ge other.value (10 ^ rounding.firstExponent) with small | large
  · have none := first 0 more
    rw [Nat.cast_zero, sub_zero] at none
    exact onGrid_eq_none proper none 1 (holds_first proper holds small)
  · have coarse := Numeral.lt_exponent more (Nat.le_of_not_lt few) large
    have finer :
      rounding.firstExponent - (extra - 1 : Nat) ≤ other.exponent := by omega
    rcases Numeral.exists_digits finer with ⟨digits, same⟩
    refine onGrid_eq_none proper (first (extra - 1) (by omega)) digits ?_
    rw [same]
    exact holds

include proper isFound

theorem digits_found_le : found.digits ≤ 10 ^ (extra + 1) := by
  have below := (value_floor_le proper.denominator
    (rounding.firstExponent - (extra : Nat))).trans_lt
    (firstExponent_spec proper).2
  have split : (10 : ℚ) ^ (rounding.firstExponent + 1) =
      10 ^ (extra + 1) * 10 ^ (rounding.firstExponent - (extra : Nat)) := by
    rw [← zpow_natCast, ← zpow_add₀ (by norm_num)]
    congr 1
    push_cast
    ring
  rw [split, Numeral.value] at below
  have floor : (rounding.floor (rounding.firstExponent - (extra : Nat)) : ℚ) <
      10 ^ (extra + 1) := lt_of_mul_lt_mul_right below (by positivity)
  have floor : rounding.floor (rounding.firstExponent - (extra : Nat)) <
      10 ^ (extra + 1) := by
    exact_mod_cast floor
  rcases digits_onGrid proper isFound with rfl | rfl
  · exact floor.le
  · exact floor

theorem digitCount_trim_found_le {limit : Nat} (within : extra < limit) :
    digitCount (found.trim limit).digits ≤ extra + 1 := by
  rcases Nat.eq_or_lt_of_le (digits_found_le proper isFound) with isPower | less
  · have same : found = ⟨10 ^ (extra + 1), found.exponent⟩ := by
      rw [← isPower]
    have one : digitCount 1 = 1 := by decide
    rw [same, Numeral.trim_pow within, one]
    exact Nat.le_add_left 1 extra
  · rw [digitCount, Nat.length_toDigits_le_iff (by decide) (Nat.succ_pos extra)]
    exact (found.digits_trim_le limit).trans_lt less

include first in
/-- No number with as few digits is closer. -/
theorem abs_sub_found_le (holds : rounding.Holds other.value)
    (few : digitCount other.digits ≤ extra + 1) :
    |rounding.value - found.value| ≤ |rounding.value - other.value| := by
  rcases lt_or_ge other.value (10 ^ rounding.firstExponent) with small | large
  · have isFirst := holds_first proper holds small
    have none : extra = 0 := by
      by_contra some
      have none := first 0 (Nat.pos_of_ne_zero some)
      rw [Nat.cast_zero, sub_zero] at none
      exact onGrid_eq_none proper none 1 isFirst
    rw [none, Nat.cast_zero, sub_zero] at isFound
    have least := (firstExponent_spec proper).1
    have point :
        Numeral.value ⟨1, rounding.firstExponent⟩ =
          10 ^ rounding.firstExponent := by
      simp [Numeral.value]
    refine (abs_sub_onGrid_le proper isFound isFirst).trans ?_
    rw [point, abs_of_nonneg (by linarith), abs_of_nonneg (by linarith)]
    linarith
  · have coarse := Numeral.lt_exponent (Nat.succ_pos extra) few large
    rw [Nat.succ_eq_add_one] at coarse
    have finer :
      rounding.firstExponent - (extra : Nat) ≤ other.exponent := by omega
    rcases Numeral.exists_digits finer with ⟨digits, same⟩
    rw [← same] at holds ⊢
    exact abs_sub_onGrid_le proper isFound holds

end

end Rounding

open Rounding

section

variable {significand : Nat} {power : Int} (positive : 0 < significand)
  (bounded : significand < 2 * Binary.hiddenBit)
include positive bounded

theorem exists_onGrid :
    ∃ extra < sufficientDigits,
      (∀ fewer < extra, (ofBinary significand power).onGrid
        ((ofBinary significand power).firstExponent - (fewer : Nat)) = none) ∧
      ∃ found, (ofBinary significand power).onGrid
          ((ofBinary significand power).firstExponent - (extra : Nat)) =
            some found ∧
        shortest significand power = found.trim sufficientDigits := by
  have enough : ∃ extra < sufficientDigits, ((ofBinary significand power).onGrid
      ((ofBinary significand power).firstExponent - (extra : Nat))).isSome =
    true :=
    ⟨16, by decide, onGrid_isSome positive bounded⟩
  rcases findSome?_range enough with
    ⟨extra, within, first, found, isFound, isFirst⟩
  refine ⟨extra, within, first, found, isFound, ?_⟩
  simp only [shortest, if_neg positive.ne', isFirst, Option.getD_some]

/-- The digits that are found round to the value. No other digits that do are
fewer, and of those that are as few, none are closer. -/
theorem shortest_spec :
    (ofBinary significand power).Holds (shortest significand power).value ∧
      ∀ other : Numeral, (ofBinary significand power).Holds other.value →
        digitCount (shortest significand power).digits ≤
          digitCount other.digits ∧
        (digitCount other.digits ≤
          digitCount (shortest significand power).digits →
          |significand * 2 ^ power - (shortest significand power).value| ≤
            |significand * 2 ^ power - other.value|) := by
  have proper : (ofBinary significand power).Proper := proper_ofBinary positive
  rcases exists_onGrid positive bounded with
    ⟨extra, within, first, found, isFound, isShortest⟩
  have count := digitCount_trim_found_le proper isFound within
  rw [isShortest, found.value_trim, ← value_ofBinary]
  refine ⟨(onGrid_cases isFound).1, fun other holds => ⟨?_, fun few => ?_⟩⟩
  · exact count.trans (lt_digitCount proper first holds)
  · exact abs_sub_found_le proper first isFound holds (few.trans count)

end

/-- One tenth as a double is written with one digit. -/
example : shortest 7205759403792794 (-56) = ⟨1, -1⟩ := by decide +kernel

/-- The least positive double reads back from one digit. -/
example : shortest 1 (-1074) = ⟨5, -324⟩ := by decide +kernel

end LiveLinear.Decimal
