import Mathlib.Data.List.Sort
import LiveLinear.Proofs.Elimination.Solvability

namespace LiveLinear

/-! # Pivot columns

Which columns get a pivot at tolerance zero, told by the solutions of the
homogeneous equations alone: a column gets one exactly if no such solution ends
there. A solution of the equations themselves is known from its values in the
other columns. Thus two systems with the same solutions are reduced to the same
pivots and solved by the same points. -/

namespace Equation

variable {n : Nat}

structure EndsAt (column : Fin n) (point : Vector ℚ n) : Prop where
  nonzero : point.get column ≠ 0
  zeros : ∀ later, column < later → point.get later = 0

theorem exists_endsAt {point : Vector ℚ n} {column : Fin n}
    (nonzero : point.get column ≠ 0) :
    ∃ last, EndsAt last point := by
  let places : Finset (Fin n) := {place | point.get place ≠ 0}
  have inhabited : places.Nonempty := ⟨column, by simpa [places] using nonzero⟩
  refine ⟨places.max' inhabited, ?_, ?_⟩
  · simpa [places] using places.max'_mem inhabited
  · intro later after
    by_contra isNonzero
    exact absurd (places.le_max' later (by simpa [places] using isNonzero))
      after.not_ge

section After

variable {lead : Fin n} {point : Vector ℚ n}

theorem after_eq_zero (equation : Equation ℚ n)
    (zeros : ∀ later, lead < later → point.get later = 0) :
    equation.after lead point = 0 := by
  rw [after_eq_sum]
  apply Finset.sum_eq_zero
  intro column _
  by_cases reached : lead.val + 1 ≤ column.val
  · rw [if_pos reached, zeros column reached, mul_zero]
  · rw [if_neg reached]

theorem resolve_rescale_zero (equation : Equation ℚ n)
    (zeros : ∀ later, lead < later → point.get later = 0) :
    (equation.rescale 0).resolve lead point = 0 := by
  rw [resolve, after_eq_zero _ zeros, rescale, zero_mul, sub_zero, zero_div]

end After

theorem LeadsAt.rescale {tolerance : ℚ} {lead : Fin n} {equation : Equation ℚ n}
    (leads : LeadsAt tolerance lead equation) (factor : ℚ) :
    LeadsAt tolerance lead (equation.rescale factor) :=
  ⟨leads.one, leads.negligible⟩

theorem led_rescale {tolerance : ℚ} {pivots : List (Fin n)}
    {rows : List (Equation ℚ n)} (led : Led tolerance pivots rows)
    (factor : ℚ) :
    Led tolerance pivots (rows.map (rescale factor)) :=
  List.forall₂_map_right_iff.mpr (led.imp fun _ _ leads => leads.rescale factor)

theorem LeadsAt.not_endsAt {lead : Fin n} {equation : Equation ℚ n}
    {point : Vector ℚ n} (leads : LeadsAt 0 lead equation)
    (holds : (equation.rescale 0).residual point = 0) :
    ¬EndsAt lead point := by
  intro ends
  have resolved := (leads.rescale 0).resolve_eq holds
  rw [resolve_rescale_zero equation ends.zeros] at resolved
  exact ends.nonzero resolved.symm

/-- Resolving homogeneous rows puts nothing behind what the start has. -/
theorem zeros_backSubstitute {pivots : List (Fin n)}
    {rows : List (Equation ℚ n)} (led : Led 0 pivots rows) {start : Vector ℚ n}
    {column : Fin n} (zeros : ∀ later, column < later → start.get later = 0) :
    ∀ later, column < later →
      (backSubstitute 0 (rows.map (rescale 0)) start).get later = 0 := by
  induction led with
  | nil => exact zeros
  | @cons lead row pivots rows atLead _ induction =>
      intro later after
      rw [List.map_cons, backSubstitute_cons (atLead.rescale 0) zero_lt_one,
        get_set]
      by_cases isLead : lead = later
      · subst isLead
        rw [if_pos rfl]
        exact resolve_rescale_zero row fun further past =>
          induction further (after.trans past)
      · rw [if_neg isLead]
        exact induction later after

theorem residual_rescale_zero (equation : Equation ℚ n) (point : Vector ℚ n) :
    (equation.rescale 0).residual point =
      ∑ column, equation.coefficient column * point.get column := by
  have sum : (equation.rescale 0).sum = 0 := zero_mul _
  simp only [residual, coefficient_rescale, sum, sub_zero]

theorem residual_rescale_zero_of_isVoid {equation : Equation ℚ n}
    (isVoid : equation.isVoid 0 = true) (point : Vector ℚ n) :
    (equation.rescale 0).residual point = 0 := by
  rw [residual_rescale_zero]
  apply Finset.sum_eq_zero
  intro column _
  rw [abs_nonpos_iff.mp (isVoid_iff.mp isVoid column), zero_mul]

theorem AllHold.sub {equations : List (Equation ℚ n)} {left right : Vector ℚ n}
    (leftHolds : AllHold 1 equations left)
    (rightHolds : AllHold 1 equations right) :
    AllHold 0 equations (Vector.ofFn fun column =>
      left.get column - right.get column) := by
  intro equation member
  have leftZero := leftHolds equation member
  have rightZero := rightHolds equation member
  rw [rescale_one, residual] at leftZero rightZero
  simp only [residual_rescale_zero, Tableau.get_ofFn, mul_sub,
    Finset.sum_sub_distrib]
  linarith

end Equation

namespace Echelon.Shaped

variable {n : Nat} {pivots : List (Fin n)} {state : Echelon ℚ n}

/-- Without a pivot at the column, some solution of the homogeneous rows ends
there. -/
theorem exists_endsAt_of_not_mem (shaped : Shaped 0 pivots state)
    {column : Fin n} (free : column ∉ pivots) :
    ∃ point, Equation.AllHold 0 state.toList point ∧
      Equation.EndsAt column point := by
  let start : Vector ℚ n := Vector.ofFn fun other =>
    if other = column then 1 else 0
  have led := Equation.led_rescale shaped.led 0
  refine ⟨Equation.backSubstitute 0 (state.placed.map (Equation.rescale 0))
    start, ?_, ?_, ?_⟩
  · apply Equation.allHold_append.mpr
    constructor
    · have held := Equation.allHold_backSubstitute led shaped.ordered start
      simpa only [Equation.AllHold, List.forall_mem_map, Equation.rescale_one]
        using held
    · intro equation member
      exact Equation.residual_rescale_zero_of_isVoid
        (shaped.isVoid equation member) _
  · have leads := Equation.leads_of_heads zero_lt_one (Equation.led_iff.mp led)
    rw [Equation.get_backSubstitute_of_not_mem _ start (leads ▸ free)]
    simp only [start, Tableau.get_ofFn, if_true]
    exact one_ne_zero
  · apply Equation.zeros_backSubstitute shaped.led
    intro later after
    simp only [start, Tableau.get_ofFn, if_neg after.ne']

end Echelon.Shaped

namespace Tableau

variable {n : Nat}

/-- A column gets a pivot exactly if no solution of the homogeneous equations
ends there. -/
theorem mem_pivotColumns_reduce_iff (tableau : Tableau ℚ n)
    (exact_ : tableau.tolerance = 0) {column : Fin n} :
    column ∈ tableau.reduce.pivotColumns ↔
      ∀ point, Equation.AllHold 0 tableau.equations point →
        ¬Equation.EndsAt column point := by
  rcases tableau.exists_shaped_reduce exact_ with ⟨pivots, shaped⟩
  rw [tableau.pivotColumns_reduce_eq exact_ shaped]
  constructor
  · intro member point holds
    rcases List.mem_iff_getElem.mp member with ⟨row, within, rfl⟩
    have withinPlaced : row < tableau.echelon.placed.length := by
      rwa [shaped.length_placed]
    have leads := (List.forall₂_iff_get.mp shaped.led).2 row within withinPlaced
    have reducedHold := (tableau.allHold_reduce exact_ 0 point).mpr holds
    exact leads.not_endsAt
      (reducedHold _ (List.mem_append_left _ (List.getElem_mem withinPlaced)))
  · intro none
    by_contra free
    rcases shaped.exists_endsAt_of_not_mem free with ⟨point, holds, ends⟩
    exact none point ((tableau.allHold_reduce exact_ 0 point).mp holds) ends

/-- A solution is known from its values in the columns without a pivot. -/
theorem eq_of_agree (tableau : Tableau ℚ n) (exact_ : tableau.tolerance = 0)
    {left right : Vector ℚ n}
    (leftHolds : Equation.AllHold 1 tableau.equations left)
    (rightHolds : Equation.AllHold 1 tableau.equations right)
    (agree : ∀ column ∉ tableau.reduce.pivotColumns,
      left.get column = right.get column) :
    left = right := by
  let difference : Vector ℚ n := Vector.ofFn fun column =>
    left.get column - right.get column
  have get : ∀ column,
      difference.get column = left.get column - right.get column :=
      fun column =>
    congrFun (get_ofFn _) column
  apply Vector.ext
  intro index within
  by_contra different
  have nonzero : difference.get ⟨index, within⟩ ≠ 0 := by
    rw [get]
    exact sub_ne_zero.mpr different
  rcases Equation.exists_endsAt nonzero with ⟨last, ends⟩
  have free : last ∉ tableau.reduce.pivotColumns := fun member =>
    (tableau.mem_pivotColumns_reduce_iff exact_).mp member _
      (leftHolds.sub rightHolds) ends
  apply ends.nonzero
  rw [get, agree last free, sub_self]

/-! ## Systems with the same solutions -/

variable {tableau other : Tableau ℚ n}

def SameSolutions (tableau other : Tableau ℚ n) : Prop :=
  ∀ factor point, Equation.AllHold factor tableau.equations point ↔
    Equation.AllHold factor other.equations point

namespace SameSolutions

variable (same : SameSolutions tableau other) (exact_ : tableau.tolerance = 0)
  (otherExact : other.tolerance = 0)

include same exact_ otherExact

theorem isOverConstrained_eq :
    tableau.reduce.isOverConstrained = other.reduce.isOverConstrained := by
  rw [Bool.eq_iff_iff, tableau.isOverConstrained_reduce_iff exact_,
    other.isOverConstrained_reduce_iff otherExact]
  simp only [same 1]

theorem pivotColumns_eq :
    tableau.reduce.pivotColumns = other.reduce.pivotColumns := by
  rcases tableau.exists_shaped_reduce exact_ with ⟨pivots, shaped⟩
  rcases other.exists_shaped_reduce otherExact with ⟨otherPivots, otherShaped⟩
  have ordered : tableau.reduce.pivotColumns.Pairwise (· < ·) := by
    rw [tableau.pivotColumns_reduce_eq exact_ shaped]
    exact shaped.ordered
  have otherOrdered : other.reduce.pivotColumns.Pairwise (· < ·) := by
    rw [other.pivotColumns_reduce_eq otherExact otherShaped]
    exact otherShaped.ordered
  apply ordered.eq_of_mem_iff otherOrdered
  intro column
  rw [tableau.mem_pivotColumns_reduce_iff exact_,
    other.mem_pivotColumns_reduce_iff otherExact]
  simp only [same 0]

theorem solve_eq (consistent : tableau.reduce.isOverConstrained = false)
    (start : Vector ℚ n) :
    tableau.reduce.solve start = other.reduce.solve start := by
  have otherConsistent :=
    same.isOverConstrained_eq exact_ otherExact ▸ consistent
  have holds :
      Equation.AllHold 1 tableau.equations (tableau.reduce.solve start) := by
    intro equation member
    rw [Equation.rescale_one]
    exact tableau.residual_solve_eq_zero start exact_ consistent member
  have otherHolds :
      Equation.AllHold 1 other.equations (other.reduce.solve start) := by
    intro equation member
    rw [Equation.rescale_one]
    exact other.residual_solve_eq_zero start otherExact otherConsistent member
  apply tableau.eq_of_agree exact_ holds ((same 1 _).mpr otherHolds)
  intro column free
  have otherFree := same.pivotColumns_eq exact_ otherExact ▸ free
  rw [tableau.reduce.get_solve_of_not_mem start free,
    other.reduce.get_solve_of_not_mem start otherFree]

end SameSolutions

end Tableau

end LiveLinear
