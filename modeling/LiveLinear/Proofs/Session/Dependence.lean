import LiveLinear.Proofs.Session.Rearranging
import LiveLinear.Proofs.Session.Trace
import LiveLinear.Proofs.Solver.Dependence

namespace LiveLinear.Session

/-! # Free variables in a session

With exact arithmetic and tolerance zero, a solver that is asked for its free
variables answers with those whose column depends on the columns before it. -/

variable {commands : List (Command ℚ)} {trace : List (World ℚ)}
  {world : World ℚ} {id : SolverId} {solver : Solver ℚ}

theorem answers_dependents (represented : world.Represented)
    (found : world.solvers[id]? = some solver)
    (isZero : solver.settings.tolerance = some 0) :
    Answers world id .freeVariables (.variableIds solver.dependents) := by
  rcases Solver.exists_assemble isZero with ⟨tableau, assembled, zero⟩
  rw [← (represented id solver found).coherent.freeIds_eq assembled zero]
  exact answers_freeVariables found assembled

/-- Wherever in a session a solver with tolerance zero is asked for its free
variables, it answers with the variables whose column is a linear combination of
the columns before it. The answer is the same wherever a solver has the same
variables and, in constraints in any order, the same coefficients, whatever the
sums and the values are. -/
theorem freeVariables_dependents {patience depth : Nat}
    (traces : Traces (.ofDepth patience depth) commands trace)
    (isMoment : world ∈ trace) (found : world.solvers[id]? = some solver)
    (isZero : solver.settings.tolerance = some 0) :
    Answers world id .freeVariables (.variableIds solver.dependents) ∧
      ∀ otherPatience otherDepth others otherTrace other otherId another,
        Traces (.ofDepth otherPatience otherDepth) others otherTrace →
        other ∈ otherTrace → other.solvers[otherId]? = some another →
        another.settings.tolerance = some 0 → solver.SameColumns another →
        Answers other otherId .freeVariables
          (.variableIds solver.dependents) := by
  refine ⟨answers_dependents (traces.represented world isMoment) found
    isZero, ?_⟩
  intro _ _ others otherTrace other otherId another otherTraces otherMoment
    otherFound otherIsZero same
  rw [← same.dependents_eq]
  exact answers_dependents (otherTraces.represented other otherMoment)
    otherFound otherIsZero

/-- Variables and constraints between them, added without solving. -/
def tabulated (values : List (String × ℚ))
    (constraints : List (List (String × ℚ) × ℚ)) :
    List (Command ℚ) :=
  .operation (.newSolver "s" false true (.literal (some 0)) 10) ::
    ((values.map fun (label, value) =>
      .operation (.addVariable "s" label none (.literal (some value)))) ++
    constraints.map fun (terms, sum) =>
      .operation (.addConstraint "s" none
        (terms.map fun (label, coefficient) =>
          (.label label, .literal (some coefficient)))
        (.literal (some sum))))

def orderlyCommands : List (Command ℚ) :=
  tabulated [("x", 5), ("y", 1), ("z", 2)]
    [([("x", 1), ("y", 2)], 4), ([("y", 1), ("z", 1)], 3),
      ([("x", 2), ("y", 4)], 8)]

def shuffledCommands : List (Command ℚ) :=
  tabulated [("x", 0), ("y", 7), ("z", 7)]
    [([("x", 2), ("y", 4)], 9), ([("x", 1), ("y", 2)], 0),
      ([("y", 1), ("z", 1)], 7)]

def orderlyWorld : World ℚ :=
  ((play (.ofDepth 9 3) .empty orderlyCommands).getLast?.map
    Step.world).getD .empty

def shuffledWorld : World ℚ :=
  ((play (.ofDepth 9 3) .empty shuffledCommands).getLast?.map
    Step.world).getD .empty

theorem sameColumns_of_entries {solver another : Solver ℚ}
    (keys : another.unknowns.keys = solver.unknowns.keys)
    (entries : List.Forall₂ (fun constraint other : Constraint ℚ =>
      other.terms.entries = constraint.terms.entries)
      solver.constraints.values (another.constraints.values.rotate 1)) :
    solver.SameColumns another := by
  refine ⟨keys, _, entries.imp ?_, List.rotate_perm _ 1⟩
  intro constraint other same id
  have sameTerms : other.terms = constraint.terms := congrArg Table.mk same
  rw [Constraint.coefficientOf, sameTerms, Constraint.coefficientOf]

/-- In both worlds `z` is free: its column is that of `y`, less twice that of
`x`. -/
theorem freeVariables_dependents_shuffledWorld :
    ∃ solver another, orderlyWorld.solvers[0]? = some solver ∧
      shuffledWorld.solvers[0]? = some another ∧ 2 ∈ solver.dependents ∧
      Answers orderlyWorld 0 .freeVariables (.variableIds solver.dependents) ∧
      Answers shuffledWorld 0 .freeVariables
        (.variableIds solver.dependents) := by
  have isThere : orderlyWorld.solvers[0]?.isSome = true := by decide +kernel
  have isOther : shuffledWorld.solvers[0]?.isSome = true := by decide +kernel
  have suited : ∀ solver ∈ orderlyWorld.solvers[0]?,
      ∀ another ∈ shuffledWorld.solvers[0]?,
        solver.settings.tolerance = some 0 ∧
        another.settings.tolerance = some 0 ∧ 2 ∈ solver.unknowns.keys ∧
        another.unknowns.keys = solver.unknowns.keys ∧
        List.Forall₂ (fun constraint other : Constraint ℚ =>
          other.terms.entries = constraint.terms.entries)
          solver.constraints.values (another.constraints.values.rotate 1) := by
    decide +kernel
  have combined : ∀ solver ∈ orderlyWorld.solvers[0]?,
      ∀ constraint ∈ solver.constraints.values,
      constraint.coefficientOf 2 = ((solver.earlier 2).map fun other =>
        (if other = 0 then -2 else 1) * constraint.coefficientOf
          other).sum := by
    decide +kernel
  rcases Option.isSome_iff_exists.mp isThere with ⟨solver, found⟩
  rcases Option.isSome_iff_exists.mp isOther with ⟨another, otherFound⟩
  rcases suited solver found another otherFound with
    ⟨isZero, otherIsZero, live, keys, entries⟩
  have sound : (Engine.ofDepth 9 3 : Engine ℚ).Sound := Engine.ofDepth_sound 9 3
  have moves : 0 < (play (.ofDepth 9 3) .empty orderlyCommands).length := by
    decide +kernel
  have otherMoves :
    0 < (play (.ofDepth 9 3) .empty shuffledCommands).length := by
    decide +kernel
  rcases exists_traces_of_last sound moves with ⟨trace, traces, isMoment⟩
  rcases exists_traces_of_last sound otherMoves with
    ⟨otherTrace, otherTraces, otherMoment⟩
  have same := sameColumns_of_entries keys entries
  rcases freeVariables_dependents traces isMoment found isZero with
    ⟨answered, others⟩
  exact ⟨solver, another, found, otherFound,
    Solver.mem_dependents.mpr ⟨live, _, combined solver found⟩, answered,
    others _ _ _ _ _ _ _ otherTraces otherMoment otherFound otherIsZero same⟩

end LiveLinear.Session
