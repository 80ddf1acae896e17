import LiveLinear.Proofs.Elimination.Accuracy
import LiveLinear.Proofs.Solver.Assembly
import LiveLinear.Proofs.Solver.Writing

namespace LiveLinear

open scoped BigOperators

/-! # Accuracy of solving

By how much a solve may miss a constraint, in terms of the variables that it
leaves free. -/

/-- The sum over the columns that are kept, and mapped to something on the
way. -/
theorem sum_map_filterMap_finRange {count : Nat} {β : Type u}
    (skipped : Fin count → Bool) (name : Fin count → β) (size : β → ℚ) :
    (((List.finRange count).filterMap fun column =>
      if skipped column then none else some (name column)).map size).sum =
        ∑ column with skipped column = false, size (name column) := by
  have kept : ∀ columns : List (Fin count),
      ((columns.filterMap fun column =>
        if skipped column then none else some (name column)).map size).sum =
        (columns.map fun column =>
          if skipped column = false then size (name column) else 0).sum := by
    intro columns
    induction columns with
    | nil => rfl
    | cons column rest induction =>
        cases isSkipped : skipped column <;> simp [isSkipped, induction]
  rw [kept, Finset.sum_filter, Fin.sum_univ_def]

namespace Solver

/-- The variables in the columns that lead no row. -/
def freeIds [Scalar α] (solver : Solver α)
    (tableau : Tableau α solver.unknowns.size) :
    List VariableId :=
  (List.finRange solver.unknowns.size).filterMap fun column =>
    if tableau.pivotColumns.contains column then none
    else some (solver.columnId column)

variable {solver : Solver ℚ}

theorem Coherent.valueOf_columnId (coherent : solver.Coherent)
    (column : Fin solver.unknowns.size) :
    solver.valueOf (solver.columnId column) = solver.point.get column := by
  have get : solver.point.get column = (solver.unknowns.entry column).2.value :=
    Vector.getElem_ofFn column.isLt
  rw [Solver.valueOf_columnId coherent.unknownsNodup, get]

theorem Coherent.sum_freeIds (coherent : solver.Coherent)
    (tableau : Tableau ℚ solver.unknowns.size) :
    ((solver.freeIds tableau).map fun id => |solver.valueOf id|).sum =
      ∑ column with column ∉ tableau.pivotColumns,
        |solver.point.get column| := by
  rw [freeIds, sum_map_filterMap_finRange]
  simp only [coherent.valueOf_columnId, List.contains_eq_mem,
    decide_eq_false_iff_not]

theorem valueOf_storePoint_of_free {α : Type} [Scalar α] {solver : Solver α}
    (nodup : solver.unknowns.keys.Nodup)
    {tableau : Tableau α solver.unknowns.size} {id : VariableId}
    (free : id ∈ solver.freeIds tableau) :
    (solver.storePoint (tableau.solve solver.point)).valueOf id =
      solver.valueOf id := by
  rcases List.mem_filterMap.mp free with ⟨column, _, isId⟩
  split at isId
  · cases isId
  · next kept =>
      cases isId
      rw [valueOf_storePoint nodup, valueOf_columnId nodup,
        tableau.get_solve_of_not_mem _ (by simpa using kept)]
      exact Vector.getElem_ofFn column.isLt

/-- A solve misses a constraint by the tolerance at most, and the tolerance
times the size of every variable that is left free. -/
theorem Coherent.abs_residual_storePoint_le (coherent : solver.Coherent)
    {tableau : Tableau ℚ solver.unknowns.size}
    (assembled : solver.assemble = .ok tableau) (small : tableau.tolerance < 1)
    (consistent : tableau.reduce.isOverConstrained = false)
    {constraint : Constraint ℚ}
    (member : constraint ∈ solver.constraints.values) :
    |(solver.storePoint (tableau.reduce.solve solver.point)).residual
      constraint| ≤ tableau.tolerance *
        (1 + ((solver.freeIds tableau.reduce).map fun id =>
        |(solver.storePoint (tableau.reduce.solve solver.point)).valueOf
          id|).sum) := by
  rcases assemble_eq_ok assembled with ⟨_, _, nonnegative⟩
  have inTableau := equation_mem_of_assembled assembled member
  have sizes : ((solver.freeIds tableau.reduce).map fun id =>
      |(solver.storePoint (tableau.reduce.solve solver.point)).valueOf id|) =
        (solver.freeIds tableau.reduce).map fun id => |solver.valueOf id| := by
    apply List.map_congr_left
    intro id free
    rw [valueOf_storePoint_of_free coherent.unknownsNodup free]
  rw [sizes,
    coherent.residual_storePoint _ (coherent.constraintsOver constraint member),
    coherent.sum_freeIds, ← tableau.slack_solve]
  exact tableau.abs_residual_solve_le_slack _ (not_lt.mp nonnegative) small
    consistent inTableau

/-- What writing a solution leaves behind, where contradictions are refused. -/
theorem Writes.accurate {moved : List VariableId} {after : Solver ℚ}
    {tolerance : ℚ} (writes : solver.Writes (.ok moved) after)
    (idle : solver.dispatching = false) (coherent : solver.Coherent)
    (refuses : solver.settings.refusesContradiction = true)
    (isTolerance : solver.settings.tolerance = some tolerance)
    (small : tolerance < 1) :
    ∃ tableau, solver.assemble = .ok tableau ∧
      after.constraints = solver.constraints ∧
      (∀ id ∈ solver.freeIds tableau.reduce,
        after.valueOf id = solver.valueOf id) ∧
      ∀ constraint ∈ after.constraints.values,
        |after.residual constraint| ≤ tolerance * (1 +
          ((solver.freeIds tableau.reduce).map fun id =>
            |after.valueOf id|).sum) := by
  cases writes with
  | deferred busy =>
      rw [idle] at busy
      cases busy
  | @written tableau _ assembled accepted =>
      have same := tolerance_of_assembled assembled isTolerance
      have consistent := consistent_of_accepted refuses accepted
      rw [← same] at small ⊢
      refine ⟨tableau, assembled, rfl, ?_, ?_⟩
      · exact fun _ free =>
          valueOf_storePoint_of_free coherent.unknownsNodup free
      · exact fun _ member =>
          coherent.abs_residual_storePoint_le assembled small consistent member

theorem isSatisfied_eq {tolerance : ℚ} (constraint : Constraint ℚ)
    (isTolerance : solver.settings.tolerance = some tolerance) :
    solver.isSatisfied constraint =
      .ok (Scalar.negligible tolerance (solver.residual constraint)) := by
  rw [isSatisfied, Settings.toleranceFor, isTolerance]
  rfl

end Solver

namespace Edit

theorem exists_reduction [Scalar α] (before : Draft α)
    {tableau : Tableau α before.solver.unknowns.size}
    (assembled : before.solver.assemble = .ok tableau) :
    ∃ middle,
      (reduction before.solver).Yields before (.ok tableau.reduce) middle := by
  simp only [reduction, yields_note_bind, yields_ofOutcome_bind_ok, yields_pure]
  exact ⟨_, tableau, assembled, rfl, rfl⟩

theorem yields_freeVariables [Scalar α] (before : Draft α)
    {tableau : Tableau α before.solver.unknowns.size}
    (assembled : before.solver.assemble = .ok tableau) :
    ∃ draft,
      freeVariables.Yields before (.ok (before.solver.freeIds tableau.reduce))
        draft := by
  rcases exists_reduction before assembled with ⟨middle, made⟩
  refine ⟨middle, ?_⟩
  rw [freeVariables, yields_current_bind, yields_bind_ok]
  exact ⟨tableau.reduce, middle, made, yields_pure.mpr ⟨rfl, rfl⟩⟩

end Edit

end LiveLinear
