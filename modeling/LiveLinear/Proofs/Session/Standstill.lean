import LiveLinear.Proofs.Session.Atomicity
import LiveLinear.Proofs.Solver.Solution

namespace LiveLinear

open Matrix

/-! # Solving from a solution

With exact arithmetic and tolerance zero, values that satisfy all equations are
what solving from them leads to, whichever unknowns the equations determine. -/

theorem Workbook.perform_solve_solution (workbook : Workbook ℚ) {n : Nat}
    {tableau : Tableau ℚ n} (exact_ : tableau.tolerance = 0)
    (unreduced : tableau.reduced = false) {sheet : Sheet ℚ}
    (shows : Shows tableau sheet) {point : Vector ℚ n}
    (solution : tableau.matrix *ᵥ point.get = tableau.sums) :
    (workbook.perform sheet (.solve (some (.ofValues point.toList)))).answer =
      .ok (.point point.toList) := by
  have holds : Equation.AllHold 1 tableau.equations point := by
    rw [tableau.allHold_iff_mulVec, one_smul]
    exact solution
  have starts := Sheet.start_ofValues ⟨n, tableau⟩ point
  rw [(workbook.perform_solve unreduced shows starts).1,
    tableau.solve_reduce_eq_self exact_ holds]

variable {α : Type}

theorem Action.perform_of_unmoved [Scalar α] (engine : Engine α)
    {before : World α} {id : SolverId} {solver : Solver α}
    (found : before.solvers[id]? = some solver)
    {change : Edit α (List VariableId)} {draft : Draft α}
    (done : change.Yields ⟨solver, []⟩ (.ok []) draft) :
    (perform engine id change).Yields before (.ok ())
      (before.adopt id draft) := by
  rw [perform, yields_bind_of_ok (edit_of_yields found done)]
  exact yields_pure.mpr ⟨rfl, rfl⟩

namespace Session

/-- A solution is what solving from it leads to. A sheet at tolerance zero,
reduced or not, answers with the start if that is a solution of its system `A x
= b`. And wherever in a session hooks are not being called, a solve of a solver
at tolerance zero whose constraints are satisfied succeeds, leaves all variables
as they were and makes notes only: no hook is called, whatever the `engine`
would do about hooks. -/
theorem solve_rests :
    (∀ (n : Nat) (equations : List (Equation ℚ n)),
      ∃ tableau, Tableau.make equations (some 0) = .ok tableau ∧
        ∀ (workbook : Workbook ℚ) (sheet : Sheet ℚ) (point : Vector ℚ n),
          Workbook.Shows tableau sheet →
          tableau.matrix *ᵥ point.get = tableau.sums →
            (workbook.perform sheet
              (.solve (some (.ofValues point.toList)))).answer =
                .ok (.point point.toList)) ∧
      ∀ (patience depth : Nat) (commands : List (Command ℚ))
        (trace : List (World ℚ)),
        Traces (.ofDepth patience depth) commands trace → ∀ world ∈ trace,
          ∀ (name : String) (id : SolverId) (solver : Solver ℚ),
          world.labels.solvers.get? name = some id →
          world.solvers[id]? = some solver → solver.dispatching = false →
          solver.settings.tolerance = some 0 → solver.Satisfied →
            ∃ notes : List (Note ℚ), ∀ (engine : Engine ℚ) (context : Option ℚ),
              (Action.execute engine context
                (.operation (.solve name))).Yields world (.ok .nothing)
                (world.adopt id ⟨solver.unpended, notes⟩) := by
  constructor
  · intro n equations
    refine ⟨⟨equations, 0, false⟩, Tableau.make_exact equations, ?_⟩
    intro workbook sheet point shows solution
    exact workbook.perform_solve_solution rfl rfl shows solution
  · intro patience depth commands trace traces world isMoment name id solver
      named found idle isZero satisfied
    have coherent :=
      (traces.represented world isMoment id solver found).coherent
    rcases Edit.exists_writeSolution_satisfied idle coherent isZero
      satisfied with
      ⟨notes, written⟩
    refine ⟨.solved solver.unknowns.size 0 :: notes, ?_⟩
    intro engine context
    have performed := Action.perform_of_unmoved engine found written
    simp only [Action.execute, Action.operate, Action.solverNamed]
    rw [Action.yields_lookUp_bind named, Action.yields_bind_of_ok performed]
    exact Action.yields_pure.mpr ⟨rfl, rfl⟩

/-- A system in which the third unknown is free and the second equation is
redundant. -/
def redundantExample : Tableau ℚ 3 :=
  { equations := [⟨#v[0, 2, 1], 5⟩, ⟨#v[0, 4, 2], 10⟩, ⟨#v[1, 1, 0], 4⟩]
    tolerance := 0
    reduced := false }

theorem solve_rests_rigidWorld :
    (Workbook.perform [] ⟨3, redundantExample⟩
        (.solve (some (.ofValues [2, 2, 1])))).answer = .ok (.point [2, 2, 1]) ∧
      ∃ solver, ∃ notes : List (Note ℚ), rigidWorld.solvers[0]? = some solver ∧
        (Action.execute (.ofDepth 9 3) none (.operation (.solve "s"))).Yields
          rigidWorld (.ok .nothing)
            (rigidWorld.adopt 0 ⟨solver.unpended, notes⟩) := by
  rcases solve_rests with ⟨sheets, solvers⟩
  constructor
  · rcases sheets 3 redundantExample.equations with ⟨tableau, isMade, answers⟩
    have isExample :
        Tableau.make redundantExample.equations (some 0) =
          .ok redundantExample :=
      Tableau.make_exact _
    cases Except.ok.inj (isMade.symm.trans isExample)
    refine answers [] ⟨3, redundantExample⟩ #v[2, 2, 1] (.inl rfl) ?_
    decide +kernel
  · have isThere : rigidWorld.solvers[0]?.isSome = true := by decide +kernel
    have suited : ∀ solver ∈ rigidWorld.solvers[0]?,
        solver.dispatching = false ∧ solver.settings.tolerance = some 0 ∧
        ∀ constraint ∈ solver.constraints.values,
        solver.residual constraint = 0 := by
      decide +kernel
    rcases Option.isSome_iff_exists.mp isThere with ⟨solver, found⟩
    rcases suited solver found with ⟨idle, isZero, satisfied⟩
    rcases exists_traces_rigidWorld with ⟨trace, traces, isMoment⟩
    rcases solvers 9 3 rigidCommands trace traces rigidWorld isMoment "s"
      0 solver (by decide +kernel) found idle isZero satisfied with
      ⟨notes, yields⟩
    exact ⟨solver, notes, found, yields (.ofDepth 9 3) none⟩

end Session

end LiveLinear
