import LiveLinear.Decimal.Text
import LiveLinear.Proofs.Decimal.Shortest
import Mathlib.Data.List.TakeWhile

namespace LiveLinear.Decimal

/-! # Written numbers read back

The text of a float stands for a number that rounds to that float. -/

namespace Text

/-- What digits stand for that have a point among them. -/
def placed (text : List Char) : ℚ :=
  let whole := text.takeWhile (· != '.')
  let fraction := (text.dropWhile (· != '.')).tail
  Nat.ofDigitChars 10 (whole ++ fraction) 0 / 10 ^ fraction.length

def power : List Char → ℤ
  | '-' :: digits => -Nat.ofDigitChars 10 digits 0
  | '+' :: digits => Nat.ofDigitChars 10 digits 0
  | digits => Nat.ofDigitChars 10 digits 0

def read (text : List Char) : ℚ :=
  placed (text.takeWhile (· != 'e')) *
    10 ^ power (text.dropWhile (· != 'e')).tail

def number : List Char → ℚ
  | '-' :: text => -read text
  | text => read text

variable {whole fraction mantissa exponent digits text : List Char}
  {mark : Char}

theorem differ_of_not_mem (absent : mark ∉ text) :
    ∀ other ∈ text, (other != mark) = true :=
  fun _ member => bne_iff_ne.mpr fun same => absent (same ▸ member)

theorem takeWhile_append_cons (before : mark ∉ whole) :
    (whole ++ mark :: fraction).takeWhile (· != mark) = whole := by
  rw [List.takeWhile_append_of_pos (differ_of_not_mem before)]
  simp

theorem dropWhile_append_cons (before : mark ∉ whole) :
    (whole ++ mark :: fraction).dropWhile (· != mark) = mark :: fraction := by
  rw [List.dropWhile_append_of_pos (differ_of_not_mem before)]
  simp

theorem takeWhile_of_not_mem (absent : mark ∉ text) :
    text.takeWhile (· != mark) = text :=
  List.takeWhile_eq_self_iff.mpr (differ_of_not_mem absent)

theorem dropWhile_of_not_mem (absent : mark ∉ text) :
    text.dropWhile (· != mark) = [] :=
  List.dropWhile_eq_nil_iff.mpr (differ_of_not_mem absent)

theorem placed_append (before : '.' ∉ whole) :
    placed (whole ++ '.' :: fraction) =
      Nat.ofDigitChars 10 (whole ++ fraction) 0 / 10 ^ fraction.length := by
  rw [placed, takeWhile_append_cons before, dropWhile_append_cons before,
    List.tail_cons]

theorem placed_of_not_mem (absent : '.' ∉ text) :
    placed text = Nat.ofDigitChars 10 text 0 := by
  rw [placed, takeWhile_of_not_mem absent, dropWhile_of_not_mem absent]
  simp

theorem read_append (before : 'e' ∉ mantissa) :
    read (mantissa ++ 'e' :: exponent) = placed mantissa * 10 ^ power
      exponent := by
  rw [read, takeWhile_append_cons before, dropWhile_append_cons before,
    List.tail_cons]

theorem read_of_not_mem (absent : 'e' ∉ text) : read text = placed text := by
  rw [read, takeWhile_of_not_mem absent, dropWhile_of_not_mem absent]
  simp [power, Nat.ofDigitChars_nil]

end Text

namespace Style

open Text

variable {digits : List Char} {first : Int}

theorem not_mem_zeros {mark : Char} (noZero : mark ≠ '0') (count : Nat) :
    mark ∉ zeros count :=
  fun member => noZero (List.eq_of_mem_replicate member)

theorem ofDigitChars_zeros (count : Nat) (digits : List Char) :
    Nat.ofDigitChars 10 (zeros count ++ digits) 0 = Nat.ofDigitChars 10 digits
      0 := by
  rw [Nat.ofDigitChars_append, zeros, Nat.ofDigitChars_replicate_zero,
    Nat.mul_zero]

section

variable (isDigit : ∀ digit ∈ digits, digit.isDigit = true)
include isDigit

theorem not_mem_digits {mark : Char} (noDigit : mark.isDigit = false) :
    mark ∉ digits := by
  intro member
  rw [isDigit mark member] at noDigit
  cases noDigit

theorem placed_positional (first : Int) :
    placed (positional digits first) =
      Nat.ofDigitChars 10 digits 0 * 10 ^ (first + 1 - digits.length) := by
  have noPoint : '.' ∉ digits := not_mem_digits isDigit rfl
  unfold positional
  split
  · next negative =>
      have zeroOnly : '.' ∉ ['0'] := by decide
      have leading : ['0', '.'] ++ zeros (-first - 1).toNat ++ digits =
          ['0'] ++ '.' :: (zeros (-first - 1).toNat ++ digits) := rfl
      have length : ((zeros (-first - 1).toNat ++ digits).length : ℤ) =
          -(first + 1 - digits.length) := by
        rw [List.length_append, zeros, List.length_replicate]
        omega
      rw [leading, placed_append zeroOnly, ← List.append_assoc]
      have read :
          Nat.ofDigitChars 10 (['0'] ++ zeros (-first - 1).toNat ++ digits) 0 =
            Nat.ofDigitChars 10 digits 0 :=
        ofDigitChars_zeros ((-first - 1).toNat + 1) digits
      rw [read, ← zpow_natCast, length, zpow_neg, div_inv_eq_mul]
  · next whole =>
      simp only []
      have noPointWhole : '.' ∉ digits.take (first.toNat + 1) ++
          zeros (first.toNat + 1 - digits.length) := by
        intro member
        rcases List.mem_append.mp member with taken | padded
        · exact noPoint (List.mem_of_mem_take taken)
        · exact not_mem_zeros (by decide) _ padded
      rw [List.append_assoc, List.singleton_append, placed_append noPointWhole]
      rcases Nat.lt_or_ge (first.toNat + 1) digits.length with longer | shorter
      · have remains : (digits.drop (first.toNat + 1)).isEmpty = false := by
          rw [List.isEmpty_eq_false_iff, ne_eq, List.drop_eq_nil_iff]
          omega
        have padding : zeros (first.toNat + 1 - digits.length) = [] := by
          rw [zeros, List.replicate_eq_nil_iff]
          omega
        have length : ((digits.drop (first.toNat + 1)).length : ℤ) =
            -(first + 1 - digits.length) := by
          rw [List.length_drop]
          omega
        rw [if_neg (Bool.eq_false_iff.mp remains), padding, List.append_nil,
          List.take_append_drop, ← zpow_natCast, length, zpow_neg,
          div_inv_eq_mul]
      · have remains : digits.drop (first.toNat + 1) = [] :=
          List.drop_eq_nil_of_le shorter
        have padded : zeros (first.toNat + 1 - digits.length) ++ ['0'] =
            zeros (first.toNat + 1 - digits.length + 1) :=
          List.replicate_succ'.symm
        have length : first + 1 - digits.length =
            (first.toNat + 1 - digits.length : Nat) := by
          omega
        rw [List.take_of_length_le shorter, remains, List.isEmpty_nil,
          if_pos rfl, List.append_assoc, padded, Nat.ofDigitChars_append, zeros,
          Nat.ofDigitChars_replicate_zero, length, zpow_natCast,
          List.length_singleton]
        push_cast
        ring

theorem read_positional (first : Int) :
    read (positional digits first) =
      Nat.ofDigitChars 10 digits 0 * 10 ^ (first + 1 - digits.length) := by
  have noMark : 'e' ∉ digits := not_mem_digits isDigit rfl
  have noZeros : ∀ count, 'e' ∉ zeros count := not_mem_zeros (by decide)
  rw [read_of_not_mem, placed_positional isDigit]
  simp only [positional]
  split
  · simp [noMark, noZeros]
  · have noRest : 'e' ∉ digits.drop (first.toNat + 1) := fun member =>
      noMark (List.mem_of_mem_drop member)
    have noWhole : 'e' ∉ digits.take (first.toNat + 1) := fun member =>
      noMark (List.mem_of_mem_take member)
    split <;> simp [noRest, noWhole, noZeros]

omit isDigit in
theorem power_eq (style : Style) (first : Int) :
    power ((if first < 0 then '-' else '+') ::
      (zeros (style.exponentDigits - (Nat.toDigits 10 first.natAbs).length) ++
        Nat.toDigits 10 first.natAbs)) = first := by
  split <;> rw [power, ofDigitChars_zeros, Nat.ofDigitChars_ten_toDigits]
    <;> omega

omit isDigit in
theorem withExponent_cons (style : Style) (head : Char) (rest : List Char)
    (first : Int) :
    style.withExponent (head :: rest) first =
      ([head] ++ if rest.isEmpty = true then [] else '.' :: rest) ++
        'e' :: (if first < 0 then '-' else '+') ::
          (zeros
            (style.exponentDigits - (Nat.toDigits 10 first.natAbs).length) ++
              Nat.toDigits 10 first.natAbs) := by
  simp [withExponent]

theorem read_withExponent (style : Style) (some : digits ≠ []) (first : Int) :
    read (style.withExponent digits first) =
      Nat.ofDigitChars 10 digits 0 * 10 ^ (first + 1 - digits.length) := by
  have noPoint : '.' ∉ digits := not_mem_digits isDigit rfl
  have noMark : 'e' ∉ digits := not_mem_digits isDigit rfl
  rcases List.exists_cons_of_ne_nil some with ⟨head, rest, rfl⟩
  have length : first + 1 - (head :: rest).length = first - rest.length := by
    rw [List.length_cons]
    omega
  rw [length, zpow_sub₀ (by norm_num), zpow_natCast, mul_div_left_comm,
    mul_comm, withExponent_cons]
  cases rest with
  | nil =>
      rw [List.isEmpty_nil, if_pos rfl, List.append_nil, read_append noMark,
        power_eq, placed_of_not_mem noPoint]
      simp
  | cons next more =>
      have noPointHead : '.' ∉ [head] := fun member =>
        noPoint (List.mem_cons.mpr (.inl (List.mem_singleton.mp member)))
      have noMarkMantissa : 'e' ∉ [head] ++ '.' :: next :: more := by
        simpa using noMark
      rw [List.isEmpty_cons, if_neg Bool.false_ne_true,
        read_append noMarkMantissa, power_eq, placed_append noPointHead,
        List.singleton_append]

end

theorem read_decimal (style : Style) (value : Numeral) :
    read (style.decimal value).toList = value.value := by
  have isDigit : ∀ digit ∈ Nat.toDigits 10 value.digits, digit.isDigit = true :=
    fun _ => Nat.isDigit_of_mem_toDigits (by decide) (by decide)
  have exponent :
      value.exponent + (Nat.toDigits 10 value.digits).length - 1 + 1 -
      (Nat.toDigits 10 value.digits).length = value.exponent := by
    omega
  simp only [decimal]
  split
  · rw [String.toList_ofList, read_positional isDigit, exponent,
      Nat.ofDigitChars_ten_toDigits, Numeral.value]
  · rw [String.toList_ofList,
      read_withExponent isDigit style Nat.toDigits_ne_nil, exponent,
      Nat.ofDigitChars_ten_toDigits, Numeral.value]

example : plain.decimal ⟨15, -1⟩ = "1.5" := by decide +kernel

example : plain.decimal ⟨1, -5⟩ = "1e-05" := by decide +kernel

/-! ## Floats -/

/-- A numeral is written without a sign. -/
theorem exists_decimal_eq_cons (style : Style) (value : Numeral) :
    ∃ head rest, (style.decimal value).toList = head :: rest ∧
      head.isDigit = true := by
  have isDigit : ∀ digit ∈ Nat.toDigits 10 value.digits, digit.isDigit = true :=
    fun _ => Nat.isDigit_of_mem_toDigits (by decide) (by decide)
  rcases List.exists_cons_of_ne_nil
    (Nat.toDigits_ne_nil (n := value.digits)) with
    ⟨head, rest, isDigits⟩
  rw [isDigits] at isDigit
  have headDigit := isDigit head List.mem_cons_self
  simp only [decimal, isDigits]
  split
  · rw [String.toList_ofList]
    simp only [positional]
    split
    · exact ⟨'0', _, rfl, rfl⟩
    · exact ⟨head, _, rfl, headDigit⟩
  · rw [String.toList_ofList, withExponent_cons]
    exact ⟨head, _, rfl, headDigit⟩

theorem number_decimal (style : Style) (value : Numeral) :
    number (style.decimal value).toList = value.value := by
  rcases style.exists_decimal_eq_cons value with ⟨head, rest, starts, isDigit⟩
  rw [← style.read_decimal value, starts]
  unfold number
  split
  · next same =>
      cases same
      cases isDigit
  · rfl

theorem number_binary_finite (style : Style) (negative : Bool)
    (significand : Nat) (exponent : Int) :
    number (style.binary (.finite negative significand exponent)).toList =
      if negative = true then -(shortest significand exponent).value
      else (shortest significand exponent).value := by
  cases negative with
  | false =>
      rw [if_neg Bool.false_ne_true, binary, sign, if_neg Bool.false_ne_true,
        String.empty_append]
      exact style.number_decimal _
  | true =>
      have minus : (style.binary (.finite true significand exponent)).toList =
          '-' :: (style.decimal (shortest significand exponent)).toList := by
        rw [binary, String.toList_append]
        rfl
      rw [if_pos rfl, minus, number, style.read_decimal]

end Style

theorem Binary.significand_lt {bits significand : Nat} {negative : Bool}
    {exponent : Int}
    (finite : Binary.ofBits bits = .finite negative significand exponent) :
    significand < 2 * Binary.hiddenBit := by
  have fraction : bits % hiddenBit < hiddenBit :=
    Nat.mod_lt _ (Nat.pow_pos (by decide))
  simp only [ofBits] at finite
  split at finite
  · split at finite <;> cases finite
  · split at finite <;> cases finite <;> omega

/-- The text of a finite float stands for a number that rounds to the float. -/
theorem Style.number_binary (style : Style) {bits significand : Nat}
    {negative : Bool} {exponent : Int}
    (finite : Binary.ofBits bits = .finite negative significand exponent) :
    ∃ magnitude : ℚ,
      Text.number (style.binary (.ofBits bits)).toList =
        (if negative = true then -magnitude else magnitude) ∧
      if significand = 0 then magnitude = 0
      else (Rounding.ofBinary significand exponent).Holds magnitude := by
  refine ⟨(shortest significand exponent).value, ?_, ?_⟩
  · rw [finite, style.number_binary_finite]
  · split
    · next isZero => simp [isZero, shortest, Numeral.value]
    · next isPositive =>
        exact (shortest_spec (Nat.pos_of_ne_zero isPositive)
          (Binary.significand_lt finite)).1

end LiveLinear.Decimal
