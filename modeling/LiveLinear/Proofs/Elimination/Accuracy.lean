import Mathlib.Algebra.Order.BigOperators.Group.Finset
import LiveLinear.Proofs.Elimination.Shape

namespace LiveLinear

open scoped BigOperators

/-! # The accuracy of a solution

How far the point that reducing and resolving give can miss the equations it was
made from. An entry that elimination passed over is negligible, so a free
unknown moves a residual by no more than the tolerance times its own size; with
tolerance zero nothing is missed at all. -/

namespace Echelon

variable {n : Nat}

def slack (tolerance : ℚ) (pivots : List (Fin n)) (start : Nat)
    (point : Vector ℚ n) : ℚ :=
  tolerance *
    (1 + ∑ column : Fin n,
      if start ≤ column.val then
      (if column ∈ pivots then 0 else |point.get column|) else 0)

theorem slack_of_le (tolerance : ℚ) (pivots : List (Fin n)) {start : Nat}
    (past : n ≤ start) (point : Vector ℚ n) :
    slack tolerance pivots start point = tolerance := by
  have passed : ∀ column : Fin n, ¬start ≤ column.val := by
    intro column
    have within := column.isLt
    omega
  simp [slack, passed]

theorem slack_column (tolerance : ℚ) (pivots : List (Fin n)) (column : Fin n)
    (point : Vector ℚ n) :
    slack tolerance pivots column.val point =
      tolerance * (if column ∈ pivots then 0 else |point.get column|) +
        slack tolerance pivots (column.val + 1) point := by
  simp only [slack, sum_from_column]
  ring

theorem slack_nonneg {tolerance : ℚ} (nonnegative : 0 ≤ tolerance)
    (pivots : List (Fin n)) (start : Nat) (point : Vector ℚ n) :
    0 ≤ slack tolerance pivots start point := by
  apply mul_nonneg nonnegative
  apply add_nonneg zero_le_one
  apply Finset.sum_nonneg
  intro column _
  split
  · split
    · exact le_rfl
    · exact abs_nonneg _
  · exact le_rfl

/-- Columns that have been passed need not be told apart any more. -/
theorem slack_cons_succ (tolerance : ℚ) (pivots : List (Fin n)) (column : Fin n)
    (point : Vector ℚ n) :
    slack tolerance (column :: pivots) (column.val + 1) point =
      slack tolerance pivots (column.val + 1) point := by
  have same : ∀ other : Fin n,
      (if column.val + 1 ≤ other.val then
        (if other ∈ column :: pivots then 0 else |point.get other|) else 0) =
      (if column.val + 1 ≤ other.val then
        (if other ∈ pivots then 0 else |point.get other|) else 0) := by
    intro other
    by_cases later : column.val + 1 ≤ other.val
    · have different : other ≠ column := by
        intro equal
        rw [equal] at later
        omega
      simp only [List.mem_cons, different, false_or]
    · rw [if_neg later, if_neg later]
  simp only [slack, same]

namespace Course

variable {tolerance : ℚ} {columns pivots : List (Fin n)}
  {state final : Echelon ℚ n}

/-- At a point where the rows placed from now on hold from their leads on, and
with small sums in the rows that are never placed, every active row is missed by
no more than the slack of the columns still to come. The induction follows the
course: a skipped column costs its share of the slack, and clearing a column
costs nothing. -/
theorem abs_residualFrom_le
    (course : Course tolerance columns state pivots final)
    (nonnegative : 0 ≤ tolerance) {count : Nat}
    (remaining : columns = (List.finRange n).drop count) {point : Vector ℚ n}
    {rows : List (Equation ℚ n)}
    (isPlaced : final.placed = state.placed ++ rows) (held : List.Forall₂
      (fun lead row => Equation.residualFrom row lead.val point = 0)
        pivots rows)
    (smallSums : ∀ equation ∈ final.active, |equation.sum| ≤ tolerance) :
    ∀ equation ∈ state.active,
      |equation.residualFrom count point| ≤ slack tolerance pivots count
        point := by
  induction course generalizing count rows with
  | done state =>
      have past := le_of_drop_eq_nil remaining
      intro equation member
      rw [equation.residualFrom_of_le past, abs_neg, slack_of_le _ _ past]
      exact smallSums equation member
  | @skip column columns state pivots final unpivoted later induction =>
      rcases columns_of_drop remaining with ⟨rfl, remainingLater⟩
      have free : column ∉ pivots := by
        intro member
        have reached := later.le_of_mem_pivots remainingLater member
        omega
      intro equation member
      have share : |equation.coefficient column * point.get column| ≤
          tolerance * |point.get column| := by
        rw [abs_mul]
        exact mul_le_mul_of_nonneg_right (unpivoted.le member) (abs_nonneg _)
      have rest :=
        induction remainingLater isPlaced held smallSums equation member
      rw [equation.residualFrom_column, slack_column, if_neg free]
      exact (abs_add_le _ _).trans (add_le_add share rest)
  | @place column columns placed first rest pivot others pivots final chosen
      significant later induction =>
      rcases columns_of_drop remaining with ⟨rfl, remainingLater⟩
      have nonzero : pivot.coefficient column ≠ 0 := by
        apply abs_pos.mp
        exact nonnegative.trans_lt (Scalar.not_negligible_iff.mp significant)
      rcases later.placed_prefix with ⟨added, isAdded⟩
      have isRows : rows = pivot.scale column :: added := by
        have both := isPlaced.symm.trans isAdded.symm
        rw [List.append_assoc, List.singleton_append] at both
        exact List.append_cancel_left both
      subst isRows
      rcases List.forall₂_cons.mp held with ⟨heldPivot, heldLater⟩
      have pivotHeld : pivot.residualFrom column.val point = 0 := by
        rw [pivot.residualFrom_scale nonzero] at heldPivot
        exact (div_eq_zero_iff.mp heldPivot).resolve_right nonzero
      have permutation := choosePivot_perm column first rest
      rw [chosen] at permutation
      intro equation member
      rcases List.mem_cons.mp (permutation.mem_iff.mpr member) with
        isPivot | isOther
      · rw [isPivot, pivotHeld, abs_zero]
        exact slack_nonneg nonnegative _ _ _
      · have cleared :=
          induction remainingLater isAdded.symm heldLater smallSums
            (pivot.eliminate column equation) (List.mem_map_of_mem isOther)
        have same :
            (pivot.eliminate column equation).residualFrom (column.val + 1)
              point = equation.residualFrom column.val point := by
          have whole := pivot.residualFrom_eliminate equation nonzero point
          rw [Equation.residualFrom_column, Equation.coefficient_eliminate_self,
            zero_mul, zero_add, pivotHeld, mul_zero, sub_zero] at whole
          exact whole
        rw [same] at cleared
        rw [slack_column, if_pos List.mem_cons_self, mul_zero, zero_add,
          slack_cons_succ]
        exact cleared

end Course

end Echelon

namespace Tableau

variable {n : Nat}

theorem abs_residual_solve_le_slack (tableau : Tableau ℚ n) (start : Vector ℚ n)
    (nonnegative : 0 ≤ tableau.tolerance) (small : tableau.tolerance < 1)
    (consistent : tableau.reduce.isOverConstrained = false)
    {equation : Equation ℚ n} (member : equation ∈ tableau.equations) :
    |equation.residual (tableau.reduce.solve start)| ≤
      Echelon.slack tableau.tolerance tableau.reduce.pivotColumns 0
        (tableau.reduce.solve start) := by
  rcases Echelon.exists_course_ofEquations nonnegative tableau.equations with
    ⟨pivots, course, shaped⟩
  have pivotColumns : tableau.reduce.pivotColumns = pivots :=
    shaped.leads_eq small
  have solution : tableau.reduce.solve start =
      Equation.backSubstitute tableau.tolerance tableau.echelon.placed start :=
    shaped.backSubstitute_eq start
  have smallSums : ∀ other ∈ tableau.echelon.active,
      |other.sum| ≤ tableau.tolerance := by
    intro other active
    have noContradiction : ¬other.isContradiction tableau.tolerance = true :=
      List.any_eq_false.mp consistent other (List.mem_append_right _ active)
    rw [Equation.isContradiction, shaped.isVoid other active, Bool.true_and,
      Bool.not_eq_true] at noContradiction
    exact Scalar.not_significant_iff.mp noContradiction
  have held :=
    Equation.residualFrom_backSubstitute small shaped.led shaped.ordered start
  have remaining : List.finRange n = (List.finRange n).drop 0 := rfl
  have bounded :=
    course.abs_residualFrom_le nonnegative remaining (List.nil_append _).symm
      held smallSums equation member
  rw [solution, pivotColumns, ← equation.residualFrom_zero]
  exact bounded

theorem residual_solve_eq_zero (tableau : Tableau ℚ n) (start : Vector ℚ n)
    (exact_ : tableau.tolerance = 0)
    (consistent : tableau.reduce.isOverConstrained = false)
    {equation : Equation ℚ n} (member : equation ∈ tableau.equations) :
    equation.residual (tableau.reduce.solve start) = 0 := by
  have bounded := tableau.abs_residual_solve_le_slack start exact_.ge
    (exact_ ▸ zero_lt_one) consistent member
  rw [Echelon.slack, exact_, zero_mul] at bounded
  exact abs_nonpos_iff.mp bounded

/-- The slack at a solution, by the values the free unknowns started from. -/
theorem slack_solve (tableau : Tableau ℚ n) (start : Vector ℚ n) :
    Echelon.slack tableau.tolerance tableau.reduce.pivotColumns 0
        (tableau.reduce.solve start) =
      tableau.tolerance *
        (1 + ∑ column with column ∉ tableau.reduce.pivotColumns,
          |start.get column|) := by
  have free : ∀ column : Fin n,
      (if 0 ≤ column.val then
        (if column ∈ tableau.reduce.pivotColumns then 0
          else |(tableau.reduce.solve start).get column|) else 0) =
      if column ∉ tableau.reduce.pivotColumns then |start.get column|
      else 0 := by
    intro column
    rw [if_pos (Nat.zero_le _)]
    by_cases member : column ∈ tableau.reduce.pivotColumns
    · rw [if_pos member, if_neg (not_not.mpr member)]
    · rw [if_neg member, if_pos member,
        tableau.reduce.get_solve_of_not_mem start member]
  simp only [Echelon.slack, free, Finset.sum_filter]

/-- Reducing and resolving miss no equation by more than the tolerance, and the
tolerance times the size of every free unknown. With tolerance zero nothing is
missed. -/
theorem abs_residual_solve_le (tableau : Tableau ℚ n) (start : Vector ℚ n)
    (nonnegative : 0 ≤ tableau.tolerance) (small : tableau.tolerance < 1)
    (consistent : tableau.reduce.isOverConstrained = false) :
    ∀ equation ∈ tableau.equations,
      |equation.residual (tableau.reduce.solve start)| ≤
          tableau.tolerance *
            (1 + ∑ column with column ∉ tableau.reduce.pivotColumns,
              |start.get column|) ∧
        (tableau.tolerance = 0 →
          equation.residual (tableau.reduce.solve start) = 0) := by
  intro equation member
  constructor
  · rw [← tableau.slack_solve start]
    exact tableau.abs_residual_solve_le_slack start nonnegative small
      consistent member
  · intro isZero
    exact tableau.residual_solve_eq_zero start isZero consistent member

/-- Two equations at tolerance a tenth: the first unknown is free although both
mention it, and the second equation is void. -/
def slackExample : Tableau ℚ 2 :=
  { equations := [⟨#v[1 / 20, 2], 6⟩, ⟨#v[1 / 10, 0], 1 / 20⟩]
    tolerance := 1 / 10
    reduced := false }

theorem abs_residual_solve_le_slackExample :
    (0 : ℚ) ≤ slackExample.tolerance ∧ slackExample.tolerance < 1 ∧
      slackExample.reduce.isOverConstrained = false ∧
      slackExample.reduce.pivotColumns = [1] ∧
      ∀ equation ∈ slackExample.equations,
        |equation.residual (slackExample.reduce.solve #v[40, 0])| ≤
            slackExample.tolerance *
              (1 + ∑ column with column ∉ slackExample.reduce.pivotColumns,
                |(#v[40, 0] : Vector ℚ 2).get column|) ∧
          (slackExample.tolerance = 0 →
            equation.residual (slackExample.reduce.solve #v[40, 0]) = 0) := by
  have nonnegative : (0 : ℚ) ≤ slackExample.tolerance := by decide +kernel
  have small : slackExample.tolerance < 1 := by decide +kernel
  have consistent : slackExample.reduce.isOverConstrained = false := by
    decide +kernel
  have pivotColumns : slackExample.reduce.pivotColumns = [1] := by
    decide +kernel
  exact ⟨nonnegative, small, consistent, pivotColumns,
    abs_residual_solve_le slackExample #v[40, 0] nonnegative small consistent⟩

end Tableau

end LiveLinear
