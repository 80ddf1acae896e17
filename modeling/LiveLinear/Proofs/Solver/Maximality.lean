import LiveLinear.Proofs.Elimination.Maximality
import LiveLinear.Proofs.Solver.Solution

namespace LiveLinear

/-! # What holds after contradictions are ignored

With exact arithmetic and tolerance zero, a solve that ignores contradictions
satisfies a maximal part of the constraints, and warns if that is not all of
them. -/

namespace Solver

variable {solver : Solver ℚ}

/-- The satisfied constraints hold at once, and none of the others could hold
along with them. -/
structure Maximal (solver : Solver ℚ) : Prop where
  decided : ∀ constraint ∈ solver.constraints.values,
    ∃ truth, solver.isSatisfied constraint = .ok truth
  holds : ∀ constraint ∈ solver.constraints.values,
    solver.isSatisfied constraint = .ok true → constraint.HoldsAt solver.valueOf
  excludes : ∀ constraint ∈ solver.constraints.values,
    solver.isSatisfied constraint = .ok false →
      ¬∃ values, constraint.HoldsAt values ∧
        ∀ other ∈ solver.constraints.values,
          solver.isSatisfied other = .ok true → other.HoldsAt values

theorem isSatisfied_eq_true_iff (isZero : solver.settings.tolerance = some 0)
    (constraint : Constraint ℚ) :
    solver.isSatisfied constraint = .ok true ↔
    solver.residual constraint = 0 := by
  rw [isSatisfied_eq constraint isZero, Except.ok.injEq, Scalar.negligible_iff,
    abs_nonpos_iff]

theorem isSatisfied_eq_false_iff (isZero : solver.settings.tolerance = some 0)
    (constraint : Constraint ℚ) :
    solver.isSatisfied constraint = .ok false ↔
    solver.residual constraint ≠ 0 := by
  rw [isSatisfied_eq constraint isZero, Except.ok.injEq,
    Scalar.not_negligible_iff, abs_pos]

variable {tableau : Tableau ℚ solver.unknowns.size}

section Written

variable (coherent : solver.Coherent)
  (isZero : solver.settings.tolerance = some 0)
  (assembled : solver.assemble = .ok tableau)

include coherent

theorem residual_written {constraint : Constraint ℚ}
    (member : constraint ∈ solver.constraints.values) :
    (solver.written tableau).residual constraint =
      (solver.equation constraint).residual
        (tableau.reduce.solve solver.point) :=
  coherent.residual_storePoint _ (coherent.constraintsOver constraint member)

include isZero assembled

theorem written_maximal : (solver.written tableau).Maximal := by
  have equations := (assemble_eq_ok assembled).1
  have exact_ := tolerance_of_assembled assembled isZero
  have zeroAfter :
    (solver.written tableau).settings.tolerance = some 0 := isZero
  refine ⟨?_, ?_, ?_⟩
  · exact fun constraint _ => ⟨_, isSatisfied_eq constraint zeroAfter⟩
  · intro constraint _ satisfied
    exact residual_eq_zero_iff.mp
      ((isSatisfied_eq_true_iff zeroAfter constraint).mp satisfied)
  · rintro constraint member unsatisfied ⟨values, holds, others⟩
    have missed :=
      (isSatisfied_eq_false_iff zeroAfter constraint).mp unsatisfied
    have follows :
        Equation.Follows tableau.equations (tableau.reduce.solve solver.point)
          (solver.pointAt values) := by
      intro equation inEquations met
      rw [equations] at inEquations
      rcases List.mem_map.mp inEquations with ⟨other, isOther, rfl⟩
      rw [← residual_written coherent isOther] at met
      have otherHolds := others other isOther
        ((isSatisfied_eq_true_iff zeroAfter other).mpr met)
      exact (coherent.residual_pointAt (coherent.constraintsOver other isOther)
        values).mpr otherHolds
    have same := tableau.residual_eq_of_follows exact_ solver.point follows
      (equation_mem_of_assembled assembled member)
    rw [residual_written coherent member, ← same] at missed
    exact missed
      ((coherent.residual_pointAt (coherent.constraintsOver constraint member)
        values).mpr holds)

/-- There is a contradiction to be ignored exactly if a constraint is left
unsatisfied. -/
theorem isOverConstrained_iff_exists_unsatisfied :
    tableau.reduce.isOverConstrained = true ↔
      ∃ constraint ∈ solver.constraints.values,
        (solver.written tableau).isSatisfied constraint = .ok false := by
  have equations := (assemble_eq_ok assembled).1
  have exact_ := tolerance_of_assembled assembled isZero
  have zeroAfter :
    (solver.written tableau).settings.tolerance = some 0 := isZero
  simp only [isSatisfied_eq_false_iff zeroAfter]
  constructor
  · intro contradiction
    by_contra allMet
    push Not at allMet
    apply (tableau.isOverConstrained_reduce_iff exact_).mp contradiction
    refine ⟨tableau.reduce.solve solver.point, ?_⟩
    rw [equations]
    intro equation inEquations
    rcases List.mem_map.mp inEquations with ⟨constraint, member, rfl⟩
    rw [Equation.rescale_one, ← residual_written coherent member]
    exact allMet constraint member
  · rintro ⟨constraint, member, missed⟩
    by_contra accepted
    rw [residual_written coherent member] at missed
    exact missed (tableau.residual_solve_eq_zero _ exact_
      (Bool.eq_false_of_not_eq_true accepted)
      (equation_mem_of_assembled assembled member))

end Written

theorem exists_warning_iff :
    (∃ note ∈ solver.solveNotes tableau, note.warning?.isSome = true) ↔
      tableau.reduce.isOverConstrained = true := by
  cases contradiction : tableau.reduce.isOverConstrained <;>
    simp [solveNotes, contradiction, Note.warning?, Tableau.reductionNote]

end Solver

end LiveLinear
