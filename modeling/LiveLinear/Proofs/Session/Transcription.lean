import LiveLinear.Proofs.Session.Numbering
import LiveLinear.Proofs.Solver.Transcription

namespace LiveLinear

/-! # The matrix of a solver in a session

At every moment of a session, the matrix that a solver is assembled into and the
constraints that it holds are the same system of equations, whatever has been
added, changed, removed or taken back by then. -/

namespace Session

section Asked

variable {α : Type} [Scalar α] {world : World α} {id : SolverId}
  {solver : Solver α}

theorem yields_residuals (found : world.solvers[id]? = some solver) :
    (Action.askSolver id .residuals).Yields world
      (.ok (.numbers solver.residuals)) world :=
  Action.yields_solver_bind.mpr
    (.inr ⟨solver, found, Action.yields_pure.mpr ⟨rfl, rfl⟩⟩)

theorem yields_residual (found : world.solvers[id]? = some solver)
    (numbered : solver.id = id) {held : ConstraintId}
    {constraint : Constraint α}
    (present : solver.constraints.get? held = some constraint) :
    (Action.askConstraint ⟨id, held⟩ .residual).Yields world
      (.ok (.number (solver.residual constraint))) world := by
  apply Action.yields_consult_of_ok found
  simp only [Solver.constraintAt_of_get? numbered present]
  rfl

end Asked

section Rows

variable {world : World ℚ} {id : SolverId} {solver : Solver ℚ}

/-- The handle of the constraint in a row tells by how much that row is
missed. -/
theorem exists_equation_of_row (coherent : solver.Coherent)
    (found : world.solvers[id]? = some solver) (numbered : solver.id = id)
    {row : Nat} {held : ConstraintId}
    (isRow : solver.constraints.keys[row]? = some held) :
    ∃ equation : Equation ℚ solver.unknowns.size,
      solver.equations[row]? = some equation ∧
      (Action.askConstraint ⟨id, held⟩ .residual).Yields world
        (.ok (.number (equation.residual solver.point))) world := by
  rw [Table.keys, List.getElem?_map] at isRow
  rcases Option.map_eq_some_iff.mp isRow with ⟨⟨_, constraint⟩, isEntry, rfl⟩
  have member := List.mem_of_getElem? isEntry
  have inValues : constraint ∈ solver.constraints.values :=
    List.mem_map_of_mem member
  refine ⟨solver.equation constraint, ?_, ?_⟩
  · rw [Solver.equations, Table.values, List.map_map, List.getElem?_map,
      isEntry]
    rfl
  · rw [coherent.residual_point (coherent.constraintsOver constraint inValues)]
    exact yields_residual found numbered
      (Table.get?_of_mem_entries coherent.constraintsNodup member)

end Rows

/-- Whatever a session has done, at every moment each solver can be assembled at
any tolerance that is not negative. The rows of the matrix are those that the
constraints spell out term by term, in order. Whatever values the variables
have, each row is missed by as much as its constraint, and at the present values
that is what the solver answers for all constraints and the handle of each of
them for itself. The solutions of the system are the values at which all
constraints hold. -/
theorem assembled_transcribed (patience depth : Nat)
    (commands : List (Command ℚ)) :
    (∃ trace, Traces (.ofDepth patience depth) commands trace ∧
        ∀ world ∈ trace, world.Numbered) ∧
      ∀ trace, Traces (.ofDepth patience depth) commands trace →
        ∀ world ∈ trace, ∀ id solver, world.solvers[id]? = some solver →
          ∀ tolerance, 0 ≤ tolerance →
            ∃ tableau : Tableau ℚ solver.unknowns.size,
              (solver.atTolerance tolerance).assemble = .ok tableau ∧
              tableau.tolerance = tolerance ∧ solver.Transcribed tableau ∧
              (Action.askSolver id .residuals).Yields world
                (.ok (.numbers (tableau.residuals solver.point))) world ∧
              (world.Numbered → ∀ (row : Nat) held,
                solver.constraints.keys[row]? = some held →
                ∃ equation : Equation ℚ solver.unknowns.size,
                  tableau.equations[row]? = some equation ∧
                    (Action.askConstraint ⟨id, held⟩ .residual).Yields world
                      (.ok (.number (equation.residual solver.point)))
                        world) := by
  refine ⟨exists_numbered_traces (Engine.ofDepth_sound patience depth)
    commands, ?_⟩
  intro trace traces world isMoment id solver found tolerance nonnegative
  have coherent := (traces.represented world isMoment id solver found).coherent
  -- The solver is what it becomes when its own values are stored in it.
  have residuals := coherent.residuals_storePoint solver.point
  rw [Solver.storePoint_point] at residuals
  refine ⟨⟨solver.equations, tolerance, false⟩,
    Tableau.make_of_nonneg _ nonnegative, rfl, coherent.transcribed rfl, ?_, ?_⟩
  · rw [Tableau.residuals, ← residuals]
    exact yields_residuals found
  · exact fun numbered row held isRow =>
      exists_equation_of_row coherent found (numbered id solver found) isRow

/-- A variable is gone and a constraint has been taken back, so that ids have
gaps. One term has the coefficient zero, two variables are locked, and the last
one has come late. -/
def editedCommands : List (Command ℚ) :=
  [.operation (.newSolver "s" true true (.literal (some 0)) 10),
    .operation (.addVariable "s" "x" none (.literal (some 1))),
    .operation (.addVariable "s" "y" none (.literal (some 2))),
    .operation (.addVariable "s" "z" none (.literal (some 4))),
    .operation (.addConstraint "s" (some "c")
      [(.label "x", .literal (some 1)), (.label "y", .literal (some 1))]
      (.literal (some 3))),
    .operation (.addConstraint "s" (some "d")
      [(.label "z", .literal (some 2)), (.label "x", .literal (some 1))]
      (.literal (some 9))),
    .operation (.lock "z"),
    .operation (.addConstraint "s" none [(.label "z", .literal (some 1))]
      (.literal (some 5))),
    .operation (.deleteVariable "y"),
    .operation (.change "s" (.autoSolve false)),
    .operation (.lock "x"),
    .operation (.setTerm "d" (.label "x") (.literal (some 0))),
    .operation (.addVariable "s" "w" none (.literal (some 7))),
    .operation (.addTerm "c" (.label "w") (.literal (some 2)))]

def editedWorld : World ℚ :=
  ((play (.ofDepth 9 3) .empty editedCommands).getLast?.map
    Step.world).getD .empty

theorem assembled_transcribed_editedWorld :
    ∃ trace, Traces (.ofDepth 9 3) editedCommands trace ∧ editedWorld ∈ trace ∧
      editedWorld.Numbered ∧ ∃ solver, editedWorld.solvers[0]? = some solver ∧
        solver.unknowns.keys = [0, 2, 3] ∧
        solver.constraints.keys[3]? = some 4 ∧ (0 : ℚ) ≤ 1 / 2 ∧
        ∃ tableau : Tableau ℚ solver.unknowns.size,
          (solver.atTolerance (1 / 2)).assemble = .ok tableau ∧
          solver.Transcribed tableau ∧
            tableau.equations.map Equation.toRow =
              [[1, 0, 2, 3], [0, 2, 0, 9], [0, 1, 0, 4], [1, 0, 0, 1]] ∧
            (Action.askSolver 0 .residuals).Yields editedWorld
              (.ok (.numbers (tableau.residuals solver.point))) editedWorld ∧
            tableau.residuals solver.point = [12, -1, 0, 0] ∧
            ∃ equation : Equation ℚ solver.unknowns.size,
              tableau.equations[3]? = some equation ∧
                (Action.askConstraint ⟨0, 4⟩ .residual).Yields editedWorld
                  (.ok (.number (equation.residual solver.point)))
                    editedWorld := by
  have moves : 0 < (play (.ofDepth 9 3) .empty editedCommands).length := by
    decide +kernel
  have isThere : editedWorld.solvers[0]?.isSome = true := by decide +kernel
  have suited : ∀ solver ∈ editedWorld.solvers[0]?,
      solver.unknowns.keys = [0, 2, 3] ∧ solver.constraints.keys[3]? = some 4 ∧
      solver.equations.map Equation.toRow =
        [[1, 0, 2, 3], [0, 2, 0, 9], [0, 1, 0, 4], [1, 0, 0, 1]] ∧
      solver.residuals? = some ([12, -1, 0, 0] : List ℚ) := by
    decide +kernel
  rcases Option.isSome_iff_exists.mp isThere with ⟨solver, found⟩
  rcases suited solver found with ⟨keys, isRow, rows, missed⟩
  have nonnegative : (0 : ℚ) ≤ 1 / 2 := by norm_num
  rcases assembled_transcribed 9 3 editedCommands with
    ⟨⟨trace, traces, numbered⟩, each⟩
  have isMoment : editedWorld ∈ trace := traces.last_mem moves
  rcases each trace traces editedWorld isMoment 0 solver found (1 / 2)
    nonnegative with
    ⟨tableau, assembled, _, transcribed, asked, handles⟩
  have equations : tableau.equations = solver.equations :=
    (Solver.assemble_eq_ok assembled).1
  have present := transcribed.missed solver.point
  rw [Solver.storePoint_point, missed] at present
  rw [← equations] at rows
  exact ⟨trace, traces, isMoment, numbered editedWorld isMoment, solver, found,
    keys, isRow, nonnegative, tableau, assembled, transcribed, rows, asked,
    (Option.some.inj present).symm,
    handles (numbered editedWorld isMoment) 3 4 isRow⟩

end Session

end LiveLinear
