import Mathlib.Algebra.BigOperators.Field
import Mathlib.Algebra.BigOperators.Fin
import Mathlib.Tactic.FieldSimp
import Mathlib.Tactic.Ring
import LiveLinear.Proofs.Elimination.Exact

namespace LiveLinear

open scoped BigOperators

/-! # Residuals of equations

By how much a point misses an equation, counted over all unknowns or only from
some column on. Clearing a column changes the count from that column on by a
multiple of the count for the pivot row; what stands before the column keeps out
of it. -/

theorem foldl_add_eq_sum (term : β → ℚ) (values : List β) (start : ℚ) :
    values.foldl (fun total value => total + term value) start =
      start + (values.map term).sum := by
  induction values generalizing start with
  | nil => simp
  | cons value values induction =>
      rw [List.foldl_cons, induction, List.map_cons, List.sum_cons, add_assoc]

theorem sum_from_column (term : Fin n → ℚ) (column : Fin n) :
    (∑ other : Fin n, if column.val ≤ other.val then term other else 0) =
      term column + ∑ other : Fin n,
        if column.val + 1 ≤ other.val then term other else 0 := by
  have split : ∀ other : Fin n,
      (if column.val ≤ other.val then term other else 0) =
        (if other = column then term column else 0) +
          (if column.val + 1 ≤ other.val then term other else 0) := by
    intro other
    rcases lt_trichotomy other column with before | equal | after
    · have notReached : ¬column.val ≤ other.val := before.not_ge
      have notAfter : ¬column.val + 1 ≤ other.val := by omega
      rw [if_neg notReached, if_neg before.ne, if_neg notAfter, zero_add]
    · subst equal
      simp
    · have reached : column.val ≤ other.val := after.le
      have afterwards : column.val + 1 ≤ other.val := after
      rw [if_pos reached, if_neg after.ne', if_pos afterwards, zero_add]
  simp only [split, Finset.sum_add_distrib, Finset.sum_ite_eq', Finset.mem_univ,
    if_true]

namespace Equation

variable {n : Nat}

/-- By how much `point` misses the equation. -/
def residual (equation : Equation ℚ n) (point : Vector ℚ n) : ℚ :=
  ∑ column : Fin n,
    equation.coefficient column * point.get column - equation.sum

def residualFrom (equation : Equation ℚ n) (start : Nat)
    (point : Vector ℚ n) : ℚ :=
  ∑ column : Fin n,
      (if start ≤ column.val then equation.coefficient column * point.get column
        else 0) -
    equation.sum

@[simp] theorem residualFrom_zero (equation : Equation ℚ n)
    (point : Vector ℚ n) :
    equation.residualFrom 0 point = equation.residual point := by
  simp [residualFrom, residual]

theorem residualFrom_of_le (equation : Equation ℚ n) {start : Nat}
    (past : n ≤ start) (point : Vector ℚ n) :
    equation.residualFrom start point = -equation.sum := by
  have passed : ∀ column : Fin n, ¬start ≤ column.val := by
    intro column
    have within := column.isLt
    omega
  simp [residualFrom, passed]

theorem residualFrom_column (equation : Equation ℚ n) (column : Fin n)
    (point : Vector ℚ n) :
    equation.residualFrom column.val point =
      equation.coefficient column * point.get column +
        equation.residualFrom (column.val + 1) point := by
  simp only [residualFrom, sum_from_column]
  ring

/-! ## Row operations -/

theorem coefficient_eliminate_of_le (pivot equation : Equation ℚ n)
    {column index : Fin n} (nonzero : pivot.coefficient column ≠ 0)
    (reached : column ≤ index) :
    (pivot.eliminate column equation).coefficient index =
      equation.coefficient index -
        equation.coefficient column / pivot.coefficient column *
          pivot.coefficient index := by
  rcases reached.eq_or_lt with equal | after
  · subst equal
    rw [coefficient_eliminate_self]
    field_simp
    ring
  · simp [eliminate, coefficient, after.not_gt, after.ne']

theorem coefficient_scale_of_le (equation : Equation ℚ n) {column index : Fin n}
    (nonzero : equation.coefficient column ≠ 0) (reached : column ≤ index) :
    (equation.scale column).coefficient index =
      equation.coefficient index / equation.coefficient column := by
  rcases reached.eq_or_lt with equal | after
  · subst equal
    rw [coefficient_scale_self, div_self nonzero]
  · simp [scale, coefficient, after.not_gt, after.ne']

theorem residualFrom_eliminate (pivot equation : Equation ℚ n) {column : Fin n}
    (nonzero : pivot.coefficient column ≠ 0) (point : Vector ℚ n) :
    (pivot.eliminate column equation).residualFrom column.val point =
      equation.residualFrom column.val point -
        equation.coefficient column / pivot.coefficient column *
          pivot.residualFrom column.val point := by
  have entry : ∀ index : Fin n,
      (if column.val ≤ index.val then
        (pivot.eliminate column equation).coefficient index * point.get index
          else 0) =
      (if column.val ≤ index.val then
        equation.coefficient index * point.get index else 0) -
          equation.coefficient column / pivot.coefficient column *
          (if column.val ≤ index.val then
            pivot.coefficient index * point.get index else 0) := by
    intro index
    by_cases reached : column.val ≤ index.val
    · simp only [if_pos reached]
      rw [coefficient_eliminate_of_le pivot equation nonzero reached]
      ring
    · simp only [if_neg reached, mul_zero, sub_zero]
  have sum : (pivot.eliminate column equation).sum =
      equation.sum - equation.coefficient column / pivot.coefficient column *
      pivot.sum := rfl
  simp only [residualFrom, entry, sum, Finset.sum_sub_distrib, ← Finset.mul_sum]
  ring

theorem residualFrom_scale (equation : Equation ℚ n) {column : Fin n}
    (nonzero : equation.coefficient column ≠ 0) (point : Vector ℚ n) :
    (equation.scale column).residualFrom column.val point =
      equation.residualFrom column.val point / equation.coefficient column := by
  have entry : ∀ index : Fin n,
      (if column.val ≤ index.val then
        (equation.scale column).coefficient index * point.get index else 0) =
      (if column.val ≤ index.val then
        equation.coefficient index * point.get index else 0) /
          equation.coefficient column := by
    intro index
    by_cases reached : column.val ≤ index.val
    · simp only [if_pos reached]
      rw [coefficient_scale_of_le equation nonzero reached]
      ring
    · simp only [if_neg reached, zero_div]
  have sum : (equation.scale column).sum =
      equation.sum / equation.coefficient column := rfl
  simp only [residualFrom, entry, sum, ← Finset.sum_div]
  ring

/-! ## Resolving -/

theorem residualFrom_set_of_lt (equation : Equation ℚ n) {start : Nat}
    {column : Fin n} (before : column.val < start) (value : ℚ)
    (point : Vector ℚ n) :
    equation.residualFrom start (point.set column.val value column.isLt) =
      equation.residualFrom start point := by
  simp only [residualFrom, sub_left_inj]
  apply Finset.sum_congr rfl
  intro index _
  by_cases reached : start ≤ index.val
  · have different : column ≠ index := by omega
    rw [get_set, if_neg different]
  · simp [reached]

theorem after_eq_sum (equation : Equation ℚ n) (lead : Fin n)
    (point : Vector ℚ n) :
    equation.after lead point =
      ∑ column : Fin n,
        (if lead.val + 1 ≤ column.val then
          equation.coefficient column * point.get column else 0) := by
  have step : (fun (total : ℚ) (column : Fin n) =>
      if lead < column then
        total + equation.coefficient column * point.get column
      else total) =
    fun total column => total +
      (if lead.val + 1 ≤ column.val then
        equation.coefficient column * point.get column else 0) := by
    funext total column
    by_cases later : lead < column
    · have reached : lead.val + 1 ≤ column.val := later
      rw [if_pos later, if_pos reached]
    · have notReached : ¬lead.val + 1 ≤ column.val := later
      rw [if_neg later, if_neg notReached, add_zero]
  have folded : equation.after lead point =
      (List.finRange n).foldl (fun total column =>
        if lead < column then
          total + equation.coefficient column * point.get column
        else total) 0 := rfl
  rw [folded, step, foldl_add_eq_sum, Fin.sum_univ_def]
  exact zero_add _

theorem residualFrom_succ (equation : Equation ℚ n) (lead : Fin n)
    (point : Vector ℚ n) :
    equation.residualFrom (lead.val + 1) point = equation.after lead point -
      equation.sum := by
  rw [after_eq_sum, residualFrom]

theorem residualFrom_resolve (equation : Equation ℚ n) {lead : Fin n}
    (nonzero : equation.coefficient lead ≠ 0) (point : Vector ℚ n) :
    equation.residualFrom lead.val
      (point.set lead.val (equation.resolve lead point) lead.isLt) = 0 := by
  rw [residualFrom_column, residualFrom_set_of_lt equation (Nat.lt_succ_self _)]
  have resolved :
      (point.set lead.val (equation.resolve lead point) lead.isLt).get lead =
        (equation.sum - equation.after lead point) /
          equation.coefficient lead := by
    rw [get_set, if_pos rfl, resolve]
  rw [resolved, residualFrom_succ]
  field_simp
  ring

end Equation

end LiveLinear
