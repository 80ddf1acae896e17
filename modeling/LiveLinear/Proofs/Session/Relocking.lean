import LiveLinear.Proofs.Session.Atomicity
import LiveLinear.Proofs.Solver.Relocking

namespace LiveLinear.Session

/-! # Refused values of locked variables in a session

Giving a locked variable a value that contradicts the constraints fails, and
leaves the variable locked at the value that it had. The lock is not the one
that it was before, though: a handle to that one has nothing left to refer
to. -/

variable {α : Type} [Scalar α] {commands : List (Command α)}
  {trace : List (World α)} {world : World α} {id : SolverId} {solver : Solver α}
  {draft : Draft α}

/-- Wherever in a session a locked variable is refused a value, no hook is
called, every variable has the value it had, and nothing else changes but that a
new constraint in the last place locks the variable, whatever the `engine` would
do about hooks. -/
theorem perform_relocks {patience depth : Nat}
    (traces : Traces (.ofDepth patience depth) commands trace)
    (isMoment : world ∈ trace) (found : world.solvers[id]? = some solver)
    {handle : VariableHandle} {value : Option α} {held : ConstraintId}
    (locked : solver.lockOf handle.id = some held)
    (contradicts :
      (Edit.setValue handle value).Yields ⟨solver, []⟩ (.error .overConstrained)
        draft) (engine : Engine α) :
    (Action.perform engine id (Edit.setValue handle value)).Yields world
        (.error .overConstrained) (world.adopt id draft) ∧
      ∃ fresh, solver.Relocks handle.id held fresh draft.solver ∧
        draft.solver.lockOf handle.id = some fresh ∧
        (∀ other, draft.solver.value? other = solver.value? other) ∧
        draft.solver.constraintAt ⟨solver.id, held⟩ =
          .error (.constraintDeleted held) := by
  have represented := traces.represented world isMoment id solver found
  have relocks := Edit.setValue_relocks represented locked contradicts
  exact ⟨Action.perform_of_failing engine found contradicts, _, relocks,
    relocks.lockOf locked, relocks.value?, relocks.constraintAt⟩

/-- A world in which `x` is locked and cannot be another number than it is. -/
def boltedCommands : List (Command ℚ) :=
  [.operation (.newSolver "s" true true (.literal (some 0)) 10),
    .operation (.addVariable "s" "x" none (.literal (some 1))),
    .operation (.addConstraint "s" none [(.label "x", .literal (some 1))]
      (.literal (some 1))),
    .operation (.lock "x")]

def boltedWorld : World ℚ :=
  ((play (.ofDepth 9 3) .empty boltedCommands).getLast?.map
    Step.world).getD .empty

theorem exists_traces_boltedWorld :
    ∃ trace, Traces (.ofDepth 9 3) boltedCommands trace ∧ boltedWorld ∈ trace :=
  exists_traces_of_last (Engine.ofDepth_sound 9 3) (by decide +kernel)

theorem exists_solver_boltedWorld :
    ∃ solver, boltedWorld.solvers[0]? = some solver ∧
      solver.dispatching = false ∧ solver.lockOf 0 = some 1 ∧
      solver.constraints.contains 1 = true ∧
      contradicts (Edit.setValue ⟨0, 0⟩ (some 5)) solver = true := by
  have isThere : boltedWorld.solvers[0]?.isSome = true := by decide +kernel
  have suited : ∀ solver ∈ boltedWorld.solvers[0]?, solver.dispatching = false ∧
      solver.lockOf 0 = some 1 ∧ solver.constraints.contains 1 = true ∧
      contradicts (Edit.setValue ⟨0, 0⟩ (some 5)) solver = true := by
      decide +kernel
  rcases Option.isSome_iff_exists.mp isThere with ⟨solver, found⟩
  exact ⟨solver, found, suited solver found⟩

theorem perform_relocks_boltedWorld :
    ∃ solver draft fresh, boltedWorld.solvers[0]? = some solver ∧
      solver.lockOf 0 = some 1 ∧
      (Action.perform (.ofDepth 9 3) 0 (Edit.setValue ⟨0, 0⟩ (some 5))).Yields
        boltedWorld (.error .overConstrained) (boltedWorld.adopt 0 draft) ∧
      solver.Relocks 0 1 fresh draft.solver ∧
      draft.solver.lockOf 0 = some fresh := by
  rcases exists_traces_boltedWorld with ⟨trace, traces, isMoment⟩
  rcases exists_solver_boltedWorld with ⟨solver, found, _, locked, _, refused⟩
  rcases exists_yields_of_contradicts refused with ⟨draft, fails⟩
  rcases perform_relocks traces isMoment found locked fails (.ofDepth 9 3) with
    ⟨performed, fresh, relocks, relocked, _⟩
  exact ⟨solver, draft, fresh, found, locked, performed, relocks, relocked⟩

/-- The lock that `x` had before it was refused a value does not come back. -/
theorem exists_lock_replaced :
    ∃ trace, Traces (.ofDepth 9 3) boltedCommands trace ∧ boltedWorld ∈ trace ∧
      ∃ solver draft, boltedWorld.solvers[0]? = some solver ∧
        solver.dispatching = false ∧
        (Edit.setValue ⟨0, 0⟩ (some 5)).Yields ⟨solver, []⟩
          (.error .overConstrained) draft ∧
        solver.lockOf 0 = some 1 ∧ solver.constraints.contains 1 = true ∧
        draft.solver.lockOf 0 = some 3 ∧
        draft.solver.constraints.contains 1 = false := by
  rcases exists_traces_boltedWorld with ⟨trace, traces, isMoment⟩
  rcases exists_solver_boltedWorld with
    ⟨solver, found, idle, locked, present, refused⟩
  rcases exists_yields_of_contradicts refused with ⟨draft, fails⟩
  have left : ∀ solver ∈ boltedWorld.solvers[0]?,
      let after := ((Edit.setValue ⟨0, 0⟩ (some 5)).run ⟨solver, []⟩).2.solver
      after.lockOf 0 = some 3 ∧ after.constraints.contains 1 = false := by
      decide +kernel
  have replaced := left solver found
  rw [fails] at replaced
  exact ⟨trace, traces, isMoment, solver, draft, found, idle, fails, locked,
    present, replaced⟩

end LiveLinear.Session
