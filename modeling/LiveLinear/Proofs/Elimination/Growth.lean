import LiveLinear.Proofs.Elimination.Idempotence

namespace LiveLinear

/-! # Growth of entries

The pivot is the largest entry of its column among the active rows. So clearing
the column takes from each row at most as much as stands in the pivot row, and
entries at most double with every pivot. The pivot is also beyond the tolerance,
which bounds what is left of its row when it is divided by it. -/

namespace Equation

variable {n : Nat} {start : Nat} {bound tolerance : ℚ}
  {equation pivot : Equation ℚ n} {column : Fin n}

/-- From column `start` on no entry is larger than `bound`, nor is the sum. -/
structure Within (start : Nat) (bound : ℚ) (equation : Equation ℚ n) :
    Prop where
  coefficient : ∀ column : Fin n, start ≤ column.val →
    |equation.coefficient column| ≤ bound
  sum : |equation.sum| ≤ bound

theorem abs_multiplier_le_one
    (largest : |equation.coefficient column| ≤ |pivot.coefficient column|) :
    |equation.coefficient column / pivot.coefficient column| ≤ 1 := by
  rw [abs_div]
  exact div_le_one_of_le₀ largest (abs_nonneg _)

theorem abs_sub_multiple_le {entry multiplier other : ℚ}
    (atMost : |entry| ≤ bound) (small : |multiplier| ≤ 1)
    (otherAtMost : |other| ≤ bound) :
    |entry - multiplier * other| ≤ 2 * bound := by
  have product : |multiplier * other| ≤ bound := by
    rw [abs_mul]
    exact (mul_le_of_le_one_left (abs_nonneg other) small).trans otherAtMost
  calc |entry - multiplier * other| ≤ |entry| + |multiplier * other| :=
    abs_sub _ _
    _ ≤ bound + bound := add_le_add atMost product
    _ = 2 * bound := (two_mul bound).symm

/-- Clearing a column by its largest entry at most doubles the bound. -/
theorem Within.eliminate (within : equation.Within 0 bound)
    (pivotWithin : pivot.Within 0 bound)
    (largest : |equation.coefficient column| ≤ |pivot.coefficient column|)
    (nonzero : pivot.coefficient column ≠ 0) :
    (pivot.eliminate column equation).Within 0 (2 * bound) := by
  have small := abs_multiplier_le_one largest
  constructor
  · intro index reached
    have atMost := within.coefficient index reached
    rcases lt_or_ge index column with before | after
    · rw [coefficient_eliminate_of_lt pivot equation before]
      have nonnegative := (abs_nonneg _).trans atMost
      linarith
    · rw [coefficient_eliminate_of_le pivot equation nonzero after]
      exact abs_sub_multiple_le atMost small
        (pivotWithin.coefficient index reached)
  · exact abs_sub_multiple_le within.sum small pivotWithin.sum

theorem Within.scale (within : equation.Within 0 bound)
    (positive : 0 < tolerance)
    (beyond : tolerance < |equation.coefficient column|) :
    (equation.scale column).Within column.val (bound / tolerance) := by
  have quotient : ∀ {entry : ℚ}, |entry| ≤ bound →
      |entry / equation.coefficient column| ≤ bound / tolerance := by
    intro entry atMost
    rw [abs_div]
    exact div_le_div₀ ((abs_nonneg entry).trans atMost) atMost positive
      beyond.le
  have nonzero : equation.coefficient column ≠ 0 :=
    abs_pos.mp (positive.trans beyond)
  constructor
  · intro index reached
    rw [coefficient_scale_of_le equation nonzero reached]
    exact quotient (within.coefficient index (Nat.zero_le _))
  · exact quotient within.sum

end Equation

namespace Echelon

section Stages

variable {α : Type u} {n : Nat} [Scalar α]

theorem Course.append {tolerance : α} {columns later pivots more : List (Fin n)}
    {state middle final : Echelon α n}
    (course : Course tolerance columns state pivots middle)
    (goesOn : Course tolerance later middle more final) :
    Course tolerance (columns ++ later) state (pivots ++ more) final := by
  induction course with
  | done => exact goesOn
  | skip unpivoted _ induction => exact .skip unpivoted (induction goesOn)
  | place chosen significant _ induction =>
      exact .place chosen significant (induction goesOn)

/-- Elimination as it stands when `count` columns have been passed. -/
def stage (tolerance : α) (equations : List (Equation α n)) (count : Nat) :
    Echelon α n :=
  ((List.finRange n).take count).foldl (step tolerance) ⟨[], equations⟩

theorem stage_all (tolerance : α) (equations : List (Equation α n)) :
    stage tolerance equations n = ofEquations tolerance equations := by
  rw [stage, List.take_of_length_le (by simp), ofEquations]

theorem stage_succ (tolerance : α) (equations : List (Equation α n))
    (column : Fin n) :
    stage tolerance equations (column.val + 1) =
      step tolerance (stage tolerance equations column.val) column := by
  have within : column.val < (List.finRange n).length := by simp
  rw [stage, List.take_add_one, List.getElem?_eq_getElem within,
    List.foldl_append]
  simp [stage]

/-- At the column, the row `pivot` is taken from the active ones and has more
than a negligible entry there. The others are to be cleared. -/
structure Clears (tolerance : α) (state : Echelon α n) (column : Fin n)
    (pivot : Equation α n) (others : List (Equation α n)) : Prop where
  chosen : ∃ first rest, state.active = first :: rest ∧
    choosePivot column first rest = (pivot, others)
  significant : Scalar.negligible tolerance (pivot.coefficient column) = false

variable {tolerance : α} {state : Echelon α n} {column : Fin n}

theorem unpivoted_or_clears (tolerance : α) (state : Echelon α n)
    (column : Fin n) :
    Unpivoted tolerance state column ∨
      ∃ pivot others, Clears tolerance state column pivot others := by
  rcases isActive : state.active with _ | ⟨first, rest⟩
  · exact .inl fun _ _ impossible => nomatch isActive.symm.trans impossible
  · cases small : Scalar.negligible tolerance
        ((choosePivot column first rest).1.coefficient column) with
    | true =>
        refine .inl fun _ _ same => ?_
        cases isActive.symm.trans same
        exact small
    | false => exact .inr ⟨_, _, ⟨first, rest, isActive, rfl⟩, small⟩

namespace Clears

variable {pivot : Equation α n} {others : List (Equation α n)}

theorem step_eq (clears : Clears tolerance state column pivot others) :
    step tolerance state column =
      ⟨state.placed ++ [pivot.scale column],
        others.map (Equation.eliminate pivot column)⟩ := by
  rcases state with ⟨placed, active⟩
  rcases clears with ⟨⟨first, rest, rfl, chosen⟩, significant⟩
  have isPivot : (choosePivot column first rest).1 = pivot :=
    congrArg Prod.fst chosen
  rw [step_of_significant (isPivot ▸ significant), chosen]

theorem course (clears : Clears tolerance state column pivot others) :
    Course tolerance [column] state [column] (step tolerance state column) := by
  rw [clears.step_eq]
  rcases state with ⟨placed, active⟩
  rcases clears with ⟨⟨first, rest, rfl, chosen⟩, significant⟩
  exact .place chosen significant (.done _)

theorem perm (clears : Clears tolerance state column pivot others) :
    (pivot :: others).Perm state.active := by
  rcases clears.chosen with ⟨first, rest, isActive, chosen⟩
  have permutation := choosePivot_perm column first rest
  rwa [chosen, ← isActive] at permutation

end Clears

end Stages

variable {n : Nat} {tolerance bound : ℚ} {state : Echelon ℚ n}

theorem Clears.abs_le {column : Fin n} {pivot : Equation ℚ n}
    {others : List (Equation ℚ n)}
    (clears : Clears tolerance state column pivot others)
    {equation : Equation ℚ n} (member : equation ∈ others) :
    |equation.coefficient column| ≤ |pivot.coefficient column| := by
  have active := clears.perm.mem_iff.mp (List.mem_cons_of_mem pivot member)
  rcases clears.chosen with ⟨first, rest, isActive, chosen⟩
  have isPivot : (choosePivot column first rest).1 = pivot :=
    congrArg Prod.fst chosen
  apply magnitude_le_of_choosePivot column first rest
    (by rw [isPivot]; exact le_rfl)
  rwa [← isActive]

/-- What elimination keeps within bounds when it has given `pivots` their rows:
the active rows, and of each placed row what stands from its pivot on. -/
structure Bounded (tolerance bound : ℚ) (pivots : List (Fin n))
    (state : Echelon ℚ n) : Prop where
  length : state.placed.length = pivots.length
  active : ∀ equation ∈ state.active,
    equation.Within 0 (2 ^ pivots.length * bound)
  placed : 0 < tolerance → ∀ (place : Nat) (pivot : Fin n) (row : Equation ℚ n),
    pivots[place]? = some pivot → state.placed[place]? = some row →
      row.Within pivot.val (2 ^ place * bound / tolerance)

namespace Bounded

variable {pivots : List (Fin n)}

theorem start {equations : List (Equation ℚ n)}
    (within : ∀ equation ∈ equations, equation.Within 0 bound) :
    Bounded tolerance bound [] ⟨[], equations⟩ := by
  refine ⟨rfl, ?_, fun _ _ _ _ impossible => nomatch impossible⟩
  simpa using within

/-- One more pivot. -/
theorem clear (bounded : Bounded tolerance bound pivots state)
    (nonnegative : 0 ≤ tolerance) {column : Fin n} {pivot : Equation ℚ n}
    {others : List (Equation ℚ n)}
    (clears : Clears tolerance state column pivot others) :
    Bounded tolerance bound (pivots ++ [column])
      (step tolerance state column) := by
  have beyond : tolerance < |pivot.coefficient column| :=
    Scalar.not_negligible_iff.mp clears.significant
  have nonzero : pivot.coefficient column ≠ 0 :=
    abs_pos.mp (nonnegative.trans_lt beyond)
  have within : ∀ equation ∈ pivot :: others,
      equation.Within 0 (2 ^ pivots.length * bound) := fun equation member =>
    bounded.active equation (clears.perm.mem_iff.mp member)
  have pivotWithin := within pivot List.mem_cons_self
  have isLength : (pivots ++ [column]).length = pivots.length + 1 := by simp
  rw [clears.step_eq]
  constructor
  · simp [bounded.length]
  · intro equation member
    rcases List.mem_map.mp member with ⟨source, isOther, rfl⟩
    have doubled :=
      (within source (List.mem_cons_of_mem _ isOther)).eliminate pivotWithin
        (clears.abs_le isOther) nonzero
    rwa [← mul_assoc, ← pow_succ', ← isLength] at doubled
  · intro positive place lead row isLead isRow
    rcases Nat.lt_trichotomy place pivots.length with earlier | last | past
    · rw [List.getElem?_append_left earlier] at isLead
      rw [List.getElem?_append_left (bounded.length.symm ▸ earlier)] at isRow
      exact bounded.placed positive place lead row isLead isRow
    · subst last
      rw [List.getElem?_concat_length] at isLead
      rw [← bounded.length, List.getElem?_concat_length] at isRow
      cases isLead
      cases isRow
      exact pivotWithin.scale positive beyond
    · rw [List.getElem?_eq_none (isLength.trans_le past)] at isLead
      cases isLead

end Bounded

/-- Whatever the stage, the columns passed so far have taken a course within the
bounds. -/
theorem exists_bounded_stage (nonnegative : 0 ≤ tolerance)
    {equations : List (Equation ℚ n)}
    (within : ∀ equation ∈ equations, equation.Within 0 bound) {count : Nat}
    (passed : count ≤ n) :
    ∃ pivots,
      Course tolerance ((List.finRange n).take count) ⟨[], equations⟩ pivots
          (stage tolerance equations count) ∧
        Bounded tolerance bound pivots (stage tolerance equations count) := by
  induction count with
  | zero => exact ⟨[], .done _, .start within⟩
  | succ count induction =>
      rcases induction (Nat.le_of_succ_le passed) with ⟨pivots, course, bounded⟩
      let column : Fin n := ⟨count, passed⟩
      have isNext : (List.finRange n).take (count + 1) =
          (List.finRange n).take count ++ [column] := by
        have within : count < (List.finRange n).length := by
          rwa [List.length_finRange]
        rw [List.take_add_one, List.getElem?_eq_getElem within]
        simp [column]
      have isStage := stage_succ tolerance equations column
      rw [isNext, isStage]
      rcases unpivoted_or_clears tolerance (stage tolerance equations count)
        column with
        unpivoted | ⟨pivot, others, clears⟩
      · rw [step_of_unpivoted unpivoted]
        have stays := course.append (.skip unpivoted (.done _))
        rw [List.append_nil] at stays
        exact ⟨pivots, stays, bounded⟩
      · exact ⟨pivots ++ [column], course.append clears.course,
          bounded.clear nonnegative clears⟩

/-- In elimination with exact numbers up to `bound`, each column is left as it
is or cleared with multipliers up to one. At every stage the active rows have
grown by no more than a factor of two for each pivot, and the row of a pivot,
from the pivot on, is no larger than its bound was at that time, divided by the
tolerance. -/
theorem stages_bounded (nonnegative : 0 ≤ tolerance)
    {equations : List (Equation ℚ n)}
    (within : ∀ equation ∈ equations, equation.Within 0 bound) :
    stage tolerance equations n = ofEquations tolerance equations ∧
      (∀ column : Fin n,
        stage tolerance equations (column.val + 1) =
            stage tolerance equations column.val ∨
          ∃ pivot others,
            Clears tolerance (stage tolerance equations column.val) column
              pivot others ∧
            stage tolerance equations (column.val + 1) =
              ⟨(stage tolerance equations column.val).placed ++
                [pivot.scale column],
                others.map (Equation.eliminate pivot column)⟩ ∧
            ∀ equation ∈ others,
              |equation.coefficient column / pivot.coefficient column| ≤ 1) ∧
      ∀ count ≤ n, ∃ pivots,
        Course tolerance ((List.finRange n).take count) ⟨[], equations⟩ pivots
            (stage tolerance equations count) ∧
          Bounded tolerance bound pivots (stage tolerance equations count) := by
  refine ⟨stage_all tolerance equations, ?_,
    fun count passed => exists_bounded_stage nonnegative within passed⟩
  intro column
  rw [stage_succ]
  rcases unpivoted_or_clears tolerance (stage tolerance equations column.val)
    column with
    unpivoted | ⟨pivot, others, clears⟩
  · exact .inl (step_of_unpivoted unpivoted)
  · exact .inr ⟨pivot, others, clears, clears.step_eq, fun equation member =>
      Equation.abs_multiplier_le_one (clears.abs_le member)⟩

/-- Entries up to one. Every multiplier is minus one, so that the last entries
double with each pivot. -/
def doublingExample : List (Equation ℚ 3) :=
  [⟨#v[1, 0, 1], 1⟩, ⟨#v[-1, 1, 1], 1⟩, ⟨#v[-1, -1, 1], 1⟩]

theorem stages_bounded_doublingExample :
    (0 : ℚ) ≤ 1 / 10 ∧ (∀ equation ∈ doublingExample, equation.Within 0 1) ∧
      (stage (1 / 10) doublingExample 2).active.map Equation.toRow =
        [[0, 0, 4, 4]] ∧
      ∃ pivots, pivots.length = 2 ∧
        Bounded (1 / 10) 1 pivots (stage (1 / 10) doublingExample 2) := by
  have nonnegative : (0 : ℚ) ≤ 1 / 10 := by norm_num
  have within : ∀ equation ∈ doublingExample, equation.Within 0 1 := by
    have coefficients : ∀ equation ∈ doublingExample,
        ∀ column, |equation.coefficient column| ≤ 1 := by decide +kernel
    have sums : ∀ equation ∈ doublingExample, |equation.sum| ≤ 1 := by
      decide +kernel
    exact fun equation member =>
      ⟨fun column _ => coefficients equation member column,
        sums equation member⟩
  have active : (stage (1 / 10) doublingExample 2).active.map Equation.toRow =
      [[0, 0, 4, 4]] := by
    decide +kernel
  have rank : (stage (1 / 10) doublingExample 2).placed.length = 2 := by
    decide +kernel
  rcases (stages_bounded nonnegative within).2.2 2 (by decide) with
    ⟨pivots, _, bounded⟩
  exact ⟨nonnegative, within, active, pivots, bounded.length ▸ rank, bounded⟩

end Echelon

end LiveLinear
