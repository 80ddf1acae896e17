import LiveLinear.Proofs.Elimination.Pivots

namespace LiveLinear

/-! # The part of a system that is solved

At tolerance zero the solution of a system that has none satisfies as many of
the equations as can be satisfied at once: a point that satisfies all that the
solution does agrees with it on the others too, and misses them by as much. -/

namespace Equation

variable {n : Nat}

def Follows (equations : List (Equation ℚ n)) (point other : Vector ℚ n) :
    Prop :=
  ∀ equation ∈ equations, equation.residual point = 0 →
    equation.residual other = 0

end Equation

namespace Echelon

variable {n : Nat}

section Pivot

variable {column : Fin n} {pivot : Equation ℚ n} {others : List (Equation ℚ n)}
  {point : Vector ℚ n}

theorem Passed.residual_scale_eq_zero_iff
    (passed : Passed 0 column.val (pivot :: others))
    (nonzero : pivot.coefficient column ≠ 0) :
    (pivot.scale column).residual point = 0 ↔ pivot.residual point = 0 := by
  rw [pivot.residual_scale nonzero
    (passed.coefficient_eq_zero List.mem_cons_self), div_eq_zero_iff,
    or_iff_left nonzero]

theorem Passed.residual_eliminate_eq
    (passed : Passed 0 column.val (pivot :: others))
    (nonzero : pivot.coefficient column ≠ 0) (holds : pivot.residual point = 0)
    {equation : Equation ℚ n} (member : equation ∈ others) :
    (pivot.eliminate column equation).residual point = equation.residual
      point := by
  rw [pivot.residual_eliminate equation nonzero
      (passed.coefficient_eq_zero List.mem_cons_self)
      (passed.coefficient_eq_zero (List.mem_cons_of_mem _ member)),
    holds, mul_zero, sub_zero]

end Pivot

/-- A point that satisfies the active rows that the solution satisfies satisfies
all rows that are placed from them. -/
theorem Course.allHold_placed {columns pivots : List (Fin n)}
    {state final : Echelon ℚ n} (course : Course 0 columns state pivots final)
    {count : Nat} (remaining : columns = (List.finRange n).drop count)
    (passed : Passed 0 count state.active) {point other : Vector ℚ n}
    (solved : Equation.AllHold 1 final.placed point)
    (placed : Equation.AllHold 1 state.placed other)
    (follows : Equation.Follows state.active point other) :
    Equation.AllHold 1 final.placed other := by
  induction course generalizing count with
  | done state => exact placed
  | @skip column columns state pivots final unpivoted later induction =>
      rcases columns_of_drop remaining with ⟨rfl, remainingLater⟩
      exact induction remainingLater (passed.skip unpivoted) solved placed
        follows
  | @place column columns already first rest pivot others pivots final chosen
      significant later induction =>
      rcases columns_of_drop remaining with ⟨rfl, remainingLater⟩
      have nonzero : pivot.coefficient column ≠ 0 :=
        abs_pos.mp (Scalar.not_negligible_iff.mp significant)
      have passedBoth := passed.of_chosen chosen
      have followsBoth : Equation.Follows (pivot :: others) point other := by
        have permutation := choosePivot_perm column first rest
        rw [chosen] at permutation
        exact fun equation member =>
          follows equation (permutation.mem_iff.mp member)
      -- the scaled pivot row stays placed, so the solution satisfies it
      have scaledHolds : (pivot.scale column).residual point = 0 := by
        have isPlaced : pivot.scale column ∈ final.placed :=
          later.placed_prefix.subset
            (List.mem_append_right _ (List.mem_singleton_self _))
        simpa using solved _ isPlaced
      have pivotHolds :=
        (passedBoth.residual_scale_eq_zero_iff nonzero).mp scaledHolds
      have otherHolds := followsBoth pivot List.mem_cons_self pivotHolds
      refine induction remainingLater (passedBoth.eliminate le_rfl) solved ?_ ?_
      · refine Equation.allHold_append.mpr ⟨placed, ?_⟩
        intro equation member
        rw [List.mem_singleton.mp member, Equation.rescale_one]
        exact (passedBoth.residual_scale_eq_zero_iff nonzero).mpr otherHolds
      · intro equation member holds
        rcases List.mem_map.mp member with ⟨source, isOther, rfl⟩
        rw [passedBoth.residual_eliminate_eq nonzero pivotHolds isOther]
          at holds
        rw [passedBoth.residual_eliminate_eq nonzero otherHolds isOther]
        exact followsBoth source (List.mem_cons_of_mem _ isOther) holds

end Echelon

namespace Tableau

variable {n : Nat}

/-- A point that satisfies all the equations that the solution does misses every
equation by as much as the solution. -/
theorem residual_eq_of_follows (tableau : Tableau ℚ n)
    (exact_ : tableau.tolerance = 0) (start : Vector ℚ n) {other : Vector ℚ n}
    (follows :
      Equation.Follows tableau.equations (tableau.reduce.solve start) other)
    {equation : Equation ℚ n} (member : equation ∈ tableau.equations) :
    equation.residual other = equation.residual
      (tableau.reduce.solve start) := by
  rcases tableau.exists_course_reduce exact_ with ⟨pivots, course, shaped⟩
  have solved :
      Equation.AllHold 1 tableau.echelon.placed
        (tableau.reduce.solve start) := by
    rw [tableau.solve_reduce_eq exact_ shaped]
    exact Equation.allHold_backSubstitute shaped.led shaped.ordered start
  have otherSolved : Equation.AllHold 1 tableau.echelon.placed other := by
    have remaining : List.finRange n = (List.finRange n).drop 0 := rfl
    have nonePlaced : Equation.AllHold 1 [] other := by simp [Equation.AllHold]
    exact course.allHold_placed remaining (Echelon.Passed.zero _ _) solved
      nonePlaced follows
  have difference : Equation.AllHold 0 tableau.reduce.equations
      (Vector.ofFn fun column =>
        other.get column - (tableau.reduce.solve start).get column) := by
    refine Equation.allHold_append.mpr ⟨otherSolved.sub solved, ?_⟩
    intro equation member
    exact Equation.residual_rescale_zero_of_isVoid
      (shaped.isVoid equation member) _
  have homogeneous :=
    (tableau.allHold_reduce exact_ 0 _).mp difference equation member
  simp only [Equation.residual_rescale_zero, get_ofFn, mul_sub,
    Finset.sum_sub_distrib]
    at homogeneous
  simp only [Equation.residual]
  linarith

end Tableau

end LiveLinear
