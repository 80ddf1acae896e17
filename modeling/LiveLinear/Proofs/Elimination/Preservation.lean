import LiveLinear.Proofs.Elimination.Shape

namespace LiveLinear

/-! # What elimination preserves

At tolerance zero a point satisfies the reduced rows exactly if it satisfies the
rows they were made from. The same holds when every sum is taken a fixed number
of times, so one statement covers the solutions and the solutions of the
homogeneous equations. -/

namespace Equation

variable {n : Nat}

def rescale (factor : ℚ) (equation : Equation ℚ n) : Equation ℚ n :=
  { equation with sum := factor * equation.sum }

@[simp] theorem coefficient_rescale (factor : ℚ) (equation : Equation ℚ n)
    (column : Fin n) :
    (equation.rescale factor).coefficient column = equation.coefficient
      column := rfl

@[simp] theorem rescale_one (equation : Equation ℚ n) :
    equation.rescale 1 = equation := by
  simp [rescale]

theorem rescale_eliminate (factor : ℚ) (pivot equation : Equation ℚ n)
    (column : Fin n) :
    (pivot.eliminate column equation).rescale factor =
      (pivot.rescale factor).eliminate column (equation.rescale factor) := by
  simp only [rescale, eliminate, coefficient, Equation.mk.injEq, true_and]
  ring

theorem rescale_scale (factor : ℚ) (equation : Equation ℚ n) (column : Fin n) :
    (equation.scale column).rescale factor = (equation.rescale factor).scale
      column := by
  simp [rescale, scale, coefficient, mul_div_assoc]

section Residual

variable {column : Fin n}

theorem residualFrom_eq_residual {equation : Equation ℚ n}
    (zeros : ∀ index < column, equation.coefficient index = 0)
    (point : Vector ℚ n) :
    equation.residualFrom column.val point = equation.residual point := by
  rw [residualFrom, residual, sub_left_inj]
  apply Finset.sum_congr rfl
  intro index _
  by_cases reached : column.val ≤ index.val
  · rw [if_pos reached]
  · rw [if_neg reached, zeros index (Fin.lt_def.mpr (Nat.lt_of_not_le reached)),
      zero_mul]

theorem residual_scale (equation : Equation ℚ n)
    (nonzero : equation.coefficient column ≠ 0)
    (zeros : ∀ index < column, equation.coefficient index = 0)
    (point : Vector ℚ n) :
    (equation.scale column).residual point =
      equation.residual point / equation.coefficient column := by
  have scaledZeros : ∀ index < column,
      (equation.scale column).coefficient index = 0 := by
    intro index before
    rw [coefficient_scale_of_lt _ before, zeros index before]
  rw [← residualFrom_eq_residual scaledZeros, ← residualFrom_eq_residual zeros]
  exact residualFrom_scale equation nonzero point

theorem residual_eliminate (pivot equation : Equation ℚ n)
    (nonzero : pivot.coefficient column ≠ 0)
    (pivotZeros : ∀ index < column, pivot.coefficient index = 0)
    (zeros : ∀ index < column, equation.coefficient index = 0)
    (point : Vector ℚ n) :
    (pivot.eliminate column equation).residual point =
      equation.residual point -
        equation.coefficient column / pivot.coefficient column * pivot.residual
          point := by
  have clearedZeros : ∀ index < column,
      (pivot.eliminate column equation).coefficient index = 0 := by
    intro index before
    rw [coefficient_eliminate_of_lt _ _ before, zeros index before]
  rw [← residualFrom_eq_residual clearedZeros,
    ← residualFrom_eq_residual pivotZeros, ← residualFrom_eq_residual zeros]
  exact residualFrom_eliminate pivot equation nonzero point

end Residual

def AllHold (factor : ℚ) (equations : List (Equation ℚ n))
    (point : Vector ℚ n) : Prop :=
  ∀ equation ∈ equations, (equation.rescale factor).residual point = 0

section AllHold

variable {factor : ℚ} {point : Vector ℚ n}

@[simp] theorem allHold_cons {equation : Equation ℚ n}
    {equations : List (Equation ℚ n)} :
    AllHold factor (equation :: equations) point ↔
      (equation.rescale factor).residual point = 0 ∧
      AllHold factor equations point :=
  List.forall_mem_cons

@[simp] theorem allHold_append {front back : List (Equation ℚ n)} :
    AllHold factor (front ++ back) point ↔
      AllHold factor front point ∧ AllHold factor back point :=
  List.forall_mem_append

theorem allHold_perm {equations others : List (Equation ℚ n)}
    (perm : equations.Perm others) :
    AllHold factor equations point ↔ AllHold factor others point := by
  simp only [AllHold, perm.mem_iff]

end AllHold

end Equation

namespace Echelon

variable {n : Nat}

theorem Passed.coefficient_eq_zero {column : Fin n} {rows : List (Equation ℚ n)}
    (passed : Passed 0 column.val rows) {equation : Equation ℚ n}
    (member : equation ∈ rows) :
    ∀ index < column, equation.coefficient index = 0 := by
  intro index before
  exact abs_nonpos_iff.mp (passed equation member index before)

/-- Clearing a column with a scaled pivot row changes no solution. -/
theorem Passed.allHold_eliminate {column : Fin n} {pivot : Equation ℚ n}
    {others : List (Equation ℚ n)}
    (passed : Passed 0 column.val (pivot :: others))
    (nonzero : pivot.coefficient column ≠ 0) (factor : ℚ) (point : Vector ℚ n) :
    Equation.AllHold factor
        (pivot.scale column :: others.map (Equation.eliminate pivot column))
          point ↔
      Equation.AllHold factor (pivot :: others) point := by
  have pivotZeros := passed.coefficient_eq_zero List.mem_cons_self
  have scaled : ((pivot.scale column).rescale factor).residual point =
      (pivot.rescale factor).residual point / pivot.coefficient column := by
    rw [Equation.rescale_scale]
    exact (pivot.rescale factor).residual_scale nonzero pivotZeros point
  rw [Equation.allHold_cons, Equation.allHold_cons, scaled, div_eq_zero_iff,
    or_iff_left nonzero]
  apply and_congr_right
  intro held
  simp only [Equation.AllHold, List.forall_mem_map]
  apply forall₂_congr
  intro equation member
  have zeros := passed.coefficient_eq_zero (List.mem_cons_of_mem _ member)
  have cleared :
      ((pivot.eliminate column equation).rescale factor).residual point =
        (equation.rescale factor).residual point - equation.coefficient column /
          pivot.coefficient column * (pivot.rescale factor).residual point := by
    rw [Equation.rescale_eliminate]
    exact (pivot.rescale factor).residual_eliminate (equation.rescale factor)
      nonzero pivotZeros zeros point
  rw [cleared, held, mul_zero, sub_zero]

/-- A course at tolerance zero changes no solution. -/
theorem Course.allHold_iff {columns pivots : List (Fin n)}
    {state final : Echelon ℚ n} (course : Course 0 columns state pivots final)
    {count : Nat} (remaining : columns = (List.finRange n).drop count)
    (passed : Passed 0 count state.active) (factor : ℚ) (point : Vector ℚ n) :
    Equation.AllHold factor final.toList point ↔
      Equation.AllHold factor state.toList point := by
  induction course generalizing count with
  | done state => exact Iff.rfl
  | @skip column columns state pivots final unpivoted later induction =>
      rcases columns_of_drop remaining with ⟨rfl, remainingLater⟩
      exact induction remainingLater (passed.skip unpivoted)
  | @place column columns placed first rest pivot others pivots final chosen
      significant later induction =>
      rcases columns_of_drop remaining with ⟨rfl, remainingLater⟩
      have nonzero : pivot.coefficient column ≠ 0 :=
        abs_pos.mp (Scalar.not_negligible_iff.mp significant)
      have passedBoth := passed.of_chosen chosen
      have permutation := choosePivot_perm column first rest
      rw [chosen] at permutation
      rw [induction remainingLater (passedBoth.eliminate le_rfl)]
      simp only [toList, List.append_assoc, List.singleton_append,
        Equation.allHold_append]
      apply and_congr_right
      intro _
      rw [passedBoth.allHold_eliminate nonzero,
        Equation.allHold_perm permutation]

end Echelon

namespace Tableau

variable {n : Nat}

theorem exists_course_reduce (tableau : Tableau ℚ n)
    (exact_ : tableau.tolerance = 0) :
    ∃ pivots,
      Echelon.Course 0 (List.finRange n) ⟨[], tableau.equations⟩ pivots
        tableau.echelon ∧ Echelon.Shaped 0 pivots tableau.echelon := by
  rcases Echelon.exists_course_ofEquations exact_.ge tableau.equations with
    ⟨pivots, course, shaped⟩
  exact ⟨pivots, exact_ ▸ course, exact_ ▸ shaped⟩

theorem allHold_reduce (tableau : Tableau ℚ n) (exact_ : tableau.tolerance = 0)
    (factor : ℚ) (point : Vector ℚ n) :
    Equation.AllHold factor tableau.reduce.equations point ↔
      Equation.AllHold factor tableau.equations point := by
  rcases tableau.exists_course_reduce exact_ with ⟨pivots, course, _⟩
  have remaining : List.finRange n = (List.finRange n).drop 0 := rfl
  exact course.allHold_iff remaining (Echelon.Passed.zero _ _) factor point

theorem solve_reduce_eq (tableau : Tableau ℚ n) (exact_ : tableau.tolerance = 0)
    {pivots : List (Fin n)} (shaped : Echelon.Shaped 0 pivots tableau.echelon)
    (start : Vector ℚ n) :
    tableau.reduce.solve start = Equation.backSubstitute 0
      tableau.echelon.placed start := by
  rw [← shaped.backSubstitute_eq start, ← exact_]
  rfl

end Tableau

/-! ## Solutions stay where they are -/

namespace Equation

variable {n : Nat}

theorem LeadsAt.resolve_eq {lead : Fin n} {equation : Equation ℚ n}
    {point : Vector ℚ n} (leads : LeadsAt 0 lead equation)
    (holds : equation.residual point = 0) :
    equation.resolve lead point = point.get lead := by
  have zeros : ∀ column < lead, equation.coefficient column = 0 :=
      fun column before =>
    abs_nonpos_iff.mp (leads.negligible column before)
  rw [← residualFrom_eq_residual zeros, residualFrom_column, leads.one, one_mul,
    residualFrom_succ] at holds
  rw [resolve, leads.one, div_one]
  linarith

theorem backSubstitute_eq_self {pivots : List (Fin n)}
    {rows : List (Equation ℚ n)} {point : Vector ℚ n} (led : Led 0 pivots rows)
    (holds : AllHold 1 rows point) :
    backSubstitute 0 rows point = point := by
  induction led with
  | nil => rfl
  | @cons lead row pivots rows atLead _ induction =>
      rcases allHold_cons.mp holds with ⟨rowHolds, restHold⟩
      rw [rescale_one] at rowHolds
      rw [backSubstitute_cons atLead zero_lt_one, induction restHold,
        atLead.resolve_eq rowHolds]
      exact Vector.set_getElem_self lead.isLt

end Equation

theorem Equation.allHold_backSubstitute {n : Nat} {pivots : List (Fin n)}
    {rows : List (Equation ℚ n)} (led : Led 0 pivots rows)
    (ordered : pivots.Pairwise (· < ·)) (start : Vector ℚ n) :
    AllHold 1 rows (backSubstitute 0 rows start) := by
  have held := residualFrom_backSubstitute zero_lt_one led ordered start
  intro equation member
  rcases List.mem_iff_getElem.mp member with ⟨row, within, rfl⟩
  have inPivots : row < pivots.length := by rwa [led.length_eq]
  have leads := (List.forall₂_iff_get.mp led).2 row inPivots within
  have zeros : ∀ index < pivots.get ⟨row, inPivots⟩,
      rows[row].coefficient index = 0 :=
    fun index before => abs_nonpos_iff.mp (leads.negligible index before)
  rw [rescale_one, ← residualFrom_eq_residual zeros]
  exact (List.forall₂_iff_get.mp held).2 row inPivots within

theorem Tableau.solve_reduce_eq_self {n : Nat} (tableau : Tableau ℚ n)
    (exact_ : tableau.tolerance = 0) {point : Vector ℚ n}
    (holds : Equation.AllHold 1 tableau.equations point) :
    tableau.reduce.solve point = point := by
  rcases tableau.exists_course_reduce exact_ with ⟨pivots, _, shaped⟩
  have reducedHold := (tableau.allHold_reduce exact_ 1 point).mpr holds
  rw [tableau.solve_reduce_eq exact_ shaped]
  exact Equation.backSubstitute_eq_self shaped.led
    (Equation.allHold_append.mp reducedHold).1

end LiveLinear
