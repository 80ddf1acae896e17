import LiveLinear.Proofs.Elimination.Sheets
import LiveLinear.Proofs.Solver.Assembly
import LiveLinear.Proofs.Solver.Atomicity
import LiveLinear.Proofs.Solver.Solvability

namespace LiveLinear

/-! # The solution that is written

What a solve makes of a solver whose constraints make a tableau, note by note,
and that a second solve from there makes the same of it. -/

variable {α : Type}

def Sheet.Keeps [Scalar α] (sheet : Sheet α) (values : List α) : Prop :=
  ∀ point : Vector α sheet.unknowns, point.toList = values →
    sheet.tableau.reduce.solve point = point

namespace Solver

section Point

variable {solver : Solver α} (target : Vector α solver.unknowns.size)

theorem size_storePoint :
    (solver.storePoint target).unknowns.size = solver.unknowns.size := by
  simp [storePoint, Table.size]

theorem entry_storePoint
    (column : Fin (solver.storePoint target).unknowns.size) :
    (solver.storePoint target).unknowns.entry column =
      (solver.columnId (column.cast (size_storePoint target)),
        { (solver.unknowns.entry (column.cast (size_storePoint target))).2 with
          value := target[column.cast (size_storePoint target)] }) := by
  rw [Table.entry]
  exact List.get_ofFn _ column

theorem toList_point_storePoint :
    (solver.storePoint target).point.toList = target.toList := by
  apply List.ext_getElem
  · simp [size_storePoint]
  · intro index within _
    simp [point, entry_storePoint]

end Point

variable [Scalar α]

section Written

variable {solver : Solver α} {tableau : Tableau α solver.unknowns.size}

def written (solver : Solver α) (tableau : Tableau α solver.unknowns.size) :
    Solver α :=
  (solver.storePoint (tableau.reduce.solve solver.point)).unpended

def changed (solver : Solver α) (tableau : Tableau α solver.unknowns.size) :
    List VariableId :=
  solver.moved tableau.tolerance (tableau.reduce.solve solver.point)

/-- The notes of a solve, newest first. -/
def solveNotes (solver : Solver α) (tableau : Tableau α solver.unknowns.size) :
    List (Note α) :=
  .solved solver.unknowns.size (solver.changed tableau).length ::
    ((if tableau.reduce.isOverConstrained then [.contradictionIgnored]
      else []) ++ [tableau.reductionNote,
        .assembled solver.constraints.size solver.unknowns.size])

end Written

end Solver

variable [Scalar α]

theorem Edit.yields_writeSolution {solver : Solver α}
    {tableau : Tableau α solver.unknowns.size}
    (idle : solver.dispatching = false)
    (assembled : solver.assemble = .ok tableau)
    (accepted : tableau.reduce.isOverConstrained = true →
      solver.settings.refusesContradiction = false) (notes : List (Note α)) :
    writeSolution.Yields ⟨solver, notes⟩ (.ok (solver.changed tableau))
      ⟨solver.written tableau, solver.solveNotes tableau ++ notes⟩ := by
  have reduces :
      (reduction solver).Yields ⟨{ solver with resolvePending := false }, notes⟩
        (.ok tableau.reduce) ⟨{ solver with resolvePending := false },
        tableau.reductionNote :: .assembled solver.constraints.size
          solver.unknowns.size :: notes⟩ := by
    simp only [reduction, yields_note_bind, yields_ofOutcome_bind, yields_pure]
    exact .inr ⟨tableau, assembled, rfl, rfl⟩
  have notBusy : ¬solver.dispatching = true := by simp [idle]
  rw [writeSolution, yields_current_bind, if_neg notBusy, yields_update_bind,
    yields_bind]
  refine .inr ⟨tableau.reduce, _, reduces, ?_⟩
  cases contradiction : tableau.reduce.isOverConstrained with
  | false =>
      simp only [Bool.false_eq_true, if_false, yields_update_bind,
        yields_note_bind, yields_pure]
      refine ⟨rfl, ?_⟩
      simp only [Solver.solveNotes, contradiction, Bool.false_eq_true, if_false]
      rfl
  | true =>
      have ignores := accepted contradiction
      simp only [ignores, if_true, Bool.false_eq_true, if_false,
        yields_update_bind, yields_note_bind, yields_pure]
      refine ⟨rfl, ?_⟩
      simp only [Solver.solveNotes, contradiction, if_true]
      rfl

namespace Solver

variable {solver : Solver α}

/-! ## Solving again -/

theorem sheet_congr {left right : Nat} (same : left = right)
    {ids : Fin left → VariableId} {others : Fin right → VariableId}
    (agree : ∀ column, ids column = others (column.cast same))
    (constraints : List (Constraint α)) (tolerance : Option α) :
    (Tableau.make (constraints.map fun constraint =>
        { coefficients := Vector.ofFn fun column =>
            (constraint.terms.get? (ids column)).getD 0
          sum := constraint.sum }) tolerance).map (Sheet.mk left) =
      (Tableau.make (constraints.map fun constraint =>
        { coefficients := Vector.ofFn fun column =>
            (constraint.terms.get? (others column)).getD 0
          sum := constraint.sum }) tolerance).map (Sheet.mk right) := by
  subst same
  have sameIds : ids = others := funext agree
  rw [sameIds]

theorem assemble_storePoint (target : Vector α solver.unknowns.size) :
    (solver.storePoint target).assemble.map (Sheet.mk _) =
      solver.assemble.map (Sheet.mk _) := by
  refine sheet_congr (size_storePoint target) ?_ solver.constraints.values
    solver.settings.tolerance
  intro column
  rw [entry_storePoint]

/-- What has been written is the solution from there. -/
theorem exists_assemble_written [OrderedScalar α]
    {tableau : Tableau α solver.unknowns.size}
    (assembled : solver.assemble = .ok tableau)
    (nonnegative : 0 ≤ tableau.tolerance) (small : tableau.tolerance < 1) :
    ∃ again, (solver.written tableau).assemble = .ok again ∧
      again.tolerance = tableau.tolerance ∧
      again.reduce.isOverConstrained = tableau.reduce.isOverConstrained ∧
      again.reduce.solve (solver.written tableau).point =
        (solver.written tableau).point := by
  let target := tableau.reduce.solve solver.point
  have sheets :
      (solver.written tableau).assemble.map (Sheet.mk _) = .ok ⟨_, tableau⟩ :=
    (assemble_storePoint target).trans
      (congrArg (Except.map (Sheet.mk _)) assembled)
  cases assembledAgain : (solver.written tableau).assemble with
  | error failure =>
      rw [assembledAgain] at sheets
      cases sheets
  | ok again =>
      rw [assembledAgain] at sheets
      have same : (⟨_, again⟩ : Sheet α) = ⟨_, tableau⟩ := Except.ok.inj sheets
      have keeps : Sheet.Keeps ⟨_, tableau⟩ target.toList := by
        intro point isTarget
        rw [Vector.toList_inj.mp isTarget]
        exact tableau.solve_reduce_solve_reduce nonnegative small solver.point
      rw [← same] at keeps
      refine ⟨again, rfl,
        congrArg (fun sheet : Sheet α => sheet.tableau.tolerance) same,
        congrArg (fun sheet : Sheet α => sheet.tableau.reduce.isOverConstrained)
        same, ?_⟩
      exact keeps _ (toList_point_storePoint target)

theorem moved_point [OrderedScalar α] {tolerance : α}
    (nonnegative : 0 ≤ tolerance) :
    solver.moved tolerance solver.point = [] := by
  apply List.filterMap_eq_nil_iff.mpr
  intro column _
  have still :
      solver.point[column] = (solver.unknowns.entry column).2.value := by
    simp [point]
  simp only [still, Scalar.not_significant_sub_self nonnegative,
    Bool.false_eq_true, if_false]

end Solver

/-! ## Solving from a solution -/

/-- Where all constraints are satisfied, whatever has been written is there
already. -/
theorem Edit.exists_writeSolution_satisfied {solver : Solver ℚ}
    (idle : solver.dispatching = false) (coherent : solver.Coherent)
    (isZero : solver.settings.tolerance = some 0)
    (satisfied : solver.Satisfied) :
    ∃ notes, writeSolution.Yields ⟨solver, []⟩ (.ok [])
      ⟨solver.unpended, .solved solver.unknowns.size 0 :: notes⟩ := by
  rcases Solver.exists_assemble isZero with ⟨tableau, assembled, tolerance⟩
  have holds : Equation.AllHold 1 tableau.equations solver.point := by
    rw [(Solver.assemble_eq_ok assembled).1]
    exact coherent.allHold_point_iff.mpr satisfied
  have accepted : tableau.reduce.isOverConstrained = true →
      solver.settings.refusesContradiction = false := by
    intro contradiction
    exact absurd ⟨solver.point, holds⟩
      ((tableau.isOverConstrained_reduce_iff tolerance).mp contradiction)
  have stays : tableau.reduce.solve solver.point = solver.point :=
    tableau.solve_reduce_eq_self tolerance holds
  have yields := yields_writeSolution idle assembled accepted []
  have still : solver.written tableau = solver.unpended := by
    rw [Solver.written, stays, Solver.storePoint_point]
  have unchanged : solver.changed tableau = [] := by
    rw [Solver.changed, stays]
    exact Solver.moved_point tolerance.ge
  rw [Solver.solveNotes, unchanged, still] at yields
  exact ⟨_, yields⟩

/-- A second solve from the solution writes the same values, and counts none as
changed. -/
theorem Edit.exists_writeSolution_written [OrderedScalar α] {solver : Solver α}
    {tableau : Tableau α solver.unknowns.size}
    (idle : solver.dispatching = false)
    (assembled : solver.assemble = .ok tableau)
    (accepted : tableau.reduce.isOverConstrained = true →
      solver.settings.refusesContradiction = false)
    (nonnegative : 0 ≤ tableau.tolerance) (small : tableau.tolerance < 1) :
    ∃ notes, writeSolution.Yields ⟨solver.written tableau, []⟩ (.ok [])
      ⟨solver.written tableau,
        .solved (solver.written tableau).unknowns.size 0 :: notes⟩ := by
  rcases solver.exists_assemble_written assembled nonnegative small with
    ⟨again, assembledAgain, tolerance, contradiction, stays⟩
  have acceptedAgain : again.reduce.isOverConstrained = true →
      (solver.written tableau).settings.refusesContradiction = false := by
    rw [contradiction]
    exact accepted
  have idleAgain : (solver.written tableau).dispatching = false := idle
  have yields := yields_writeSolution idleAgain assembledAgain acceptedAgain []
  have still :
      (solver.written tableau).written again = solver.written tableau := by
    rw [Solver.written, stays, Solver.storePoint_point]
    rfl
  have unchanged : (solver.written tableau).changed again = [] := by
    rw [Solver.changed, stays, tolerance]
    exact Solver.moved_point nonnegative
  rw [Solver.solveNotes, unchanged, still] at yields
  exact ⟨_, yields⟩

end LiveLinear
