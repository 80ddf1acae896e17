import LiveLinear.Proofs.Session.Atomicity
import LiveLinear.Proofs.Solver.Unassembled

namespace LiveLinear.Session

/-! # Failures that are not taken back

The settings of a solver may be changed at any time, also to a tolerance with
which nothing can be solved. What an operation has stored by the time that its
own solve turns out not to begin is there afterwards, though the operation
fails. -/

variable {α : Type} [Scalar α] {world : World α} {id : SolverId}
  {solver stored : Solver α} {task : Task α} {failure : Failure α}

/-- An operation whose own solve cannot begin fails without calling a hook,
whatever the `engine` would do about hooks. The constraint, the lock or the
value that it has stored stays. A variable that was not locked is not locked
afterwards. -/
theorem perform_unassembled (found : world.solvers[id]? = some solver)
    (idle : solver.dispatching = false)
    (auto : solver.settings.autoSolve = true)
    (stores : task.Stores solver stored)
    (unassembled : stored.assemble = .error failure) (engine : Engine α) :
    ∃ draft, draft.solver = (task.leaves solver stored).unpended ∧
      (Action.perform engine id task.edit).Yields world (.error failure)
        (world.adopt id draft) ∧
      ∀ arguments total label, task = .addConstraint arguments total →
        (Action.addConstraint engine id arguments total label).Yields world
          (.error failure) (world.adopt id draft) := by
  rcases ran : task.edit.run ⟨solver, []⟩ with ⟨result, draft⟩
  rcases Task.keeps_of_unassembled stores auto idle unassembled ran with
    ⟨rfl, isDraft⟩
  refine ⟨draft, isDraft, Action.perform_of_failing engine found ran, ?_⟩
  rintro arguments total label rfl
  exact Action.addConstraint_of_failing engine found label ran

/-- A world with a tolerance below zero, in which `x` is free and `y` is
locked. -/
def unreadableWorld : World ℚ :=
  ((play (.ofDepth 9 3) .empty
    [.operation (.newSolver "s" true true (.literal (some 0)) 10),
      .operation (.addVariable "s" "x" none (.literal (some 1))),
      .operation (.addVariable "s" "y" none (.literal (some 2))),
      .operation (.lock "y"),
      .operation (.change "s" (.tolerance (.literal (some (-1)))))
    ]).getLast?.map Step.world).getD .empty

/-- An operation that fails all the same has added a constraint, locked `x`,
given `x` a value or given `y` a value and another lock. -/
theorem perform_unassembled_unreadableWorld :
    ∃ solver, unreadableWorld.solvers[0]? = some solver ∧
      solver.constraints.keys = [0] ∧
      (∃ draft, draft.solver.constraints.keys = [0, 1] ∧
        (Action.addConstraint (.ofDepth 9 3) 0 [(.handle ⟨0, 0⟩, some 1)]
          (some 5) none).Yields unreadableWorld
          (.error (.negativeTolerance (-1))) (unreadableWorld.adopt 0 draft)) ∧
      (∃ draft, draft.solver.lockOf 0 = some 1 ∧
        (Action.perform (.ofDepth 9 3) 0 (Edit.lock ⟨0, 0⟩)).Yields
          unreadableWorld (.error (.negativeTolerance (-1)))
            (unreadableWorld.adopt 0 draft)) ∧
      (∃ draft, draft.solver.valueOf 0 = 7 ∧ draft.solver.lockOf 0 = none ∧
        (Action.perform (.ofDepth 9 3) 0 (Edit.setValue ⟨0, 0⟩ (some 7))).Yields
          unreadableWorld (.error (.negativeTolerance (-1)))
            (unreadableWorld.adopt 0 draft)) ∧
      ∃ draft, draft.solver.valueOf 1 = 7 ∧ draft.solver.lockOf 1 = some 1 ∧
        (Action.perform (.ofDepth 9 3) 0 (Edit.setValue ⟨0, 1⟩ (some 7))).Yields
          unreadableWorld (.error (.negativeTolerance (-1)))
            (unreadableWorld.adopt 0 draft) := by
  have isThere : unreadableWorld.solvers[0]?.isSome = true := by decide +kernel
  have suited : ∀ solver ∈ unreadableWorld.solvers[0]?,
      solver.dispatching = false ∧ solver.settings.autoSolve = true ∧
      solver.settings.tolerance = some (-1 : ℚ) ∧ solver.id = 0 ∧
      (solver.unknowns.get? 0).map Variable.lock = some none ∧
      (solver.unknowns.get? 1).map Variable.lock = some (some 0) ∧
      solver.constraints.keys = [0] := by
    decide +kernel
  have kept : ∀ solver ∈ unreadableWorld.solvers[0]?,
      (solver.insertConstraint
        ⟨Table.empty.put 0 1, 5, .stated⟩).constraints.keys = [0, 1] ∧
      (solver.pin 0).lockOf 0 = some 1 ∧
      ((solver.holdAt 0 7).release 0).valueOf 0 = 7 ∧
      (solver.holdAt 1 7).valueOf 1 = 7 ∧
      ((solver.holdAt 0 7).release 0).lockOf 0 = none ∧
      (solver.holdAt 1 7).lockOf 1 = some 1 := by
    decide +kernel
  rcases Option.isSome_iff_exists.mp isThere with ⟨solver, found⟩
  rcases suited solver found with
    ⟨idle, auto, isTolerance, isId, hasX, hasY, hasLock⟩
  rcases kept solver found with ⟨added, locked, movedX, movedY, freedX, heldY⟩
  rcases Option.map_eq_some_iff.mp hasX with ⟨x, isX, free⟩
  rcases Option.map_eq_some_iff.mp hasY with ⟨y, isY, held⟩
  have unassembled : ∀ stored : Solver ℚ, stored.settings = solver.settings →
      stored.assemble = .error (.negativeTolerance (-1)) := fun stored same =>
    Solver.assemble_of_negative (same ▸ isTolerance) (by decide)
      fun _ _ => by simp
  have checkedX : solver.checkVariable (.handle ⟨0, 0⟩) = .ok 0 := by
    simp [Solver.checkVariable, isId, Table.contains_eq_true_iff,
      Table.mem_keys_of_get? isX]
  have checkedY : solver.checkVariable (.handle ⟨0, 1⟩) = .ok 1 := by
    simp [Solver.checkVariable, isId, Table.contains_eq_true_iff,
      Table.mem_keys_of_get? isY]
  have adding :
      (Task.addConstraint [(.handle ⟨0, 0⟩, some 1)] (some 5)).Stores solver
        (solver.insertConstraint ⟨Table.empty.put 0 1, 5, .stated⟩) := by
    refine .constraint rfl ?_
    simp [Edit.checkTerms, finite, checkedX, bind, Except.bind, pure,
      Except.pure]
  have locking : (Task.lock ⟨0, 0⟩).Stores solver (solver.pin 0) :=
    .lock (by simp [Solver.variableAt, isId, isX]) free
  have given : solver.settings.toleranceFor .atMost = .ok (-1) := by
    rw [Settings.toleranceFor, isTolerance]
  have isNews (value : ℚ) : Scalar.negligible (-1 : ℚ) value = false :=
    Scalar.not_negligible_iff.mpr
      (lt_of_lt_of_le (by norm_num) (abs_nonneg value))
  have settingX :
      (Task.setValue ⟨0, 0⟩ (some 7)).Stores solver (solver.holdAt 0 7) :=
    .value checkedX rfl isX given (isNews _)
  have settingY :
      (Task.setValue ⟨0, 1⟩ (some 7)).Stores solver (solver.holdAt 1 7) :=
    .value checkedY rfl isY given (isNews _)
  have unlockedX : solver.lockOf 0 = none :=
    (Solver.lockOf_of_get? isX).trans free
  have lockedY : solver.lockOf 1 = some 0 :=
    (Solver.lockOf_of_get? isY).trans held
  rcases perform_unassembled found idle auto adding (unassembled _ rfl)
    (.ofDepth 9 3) with
    ⟨addDraft, isAdd, _, adds⟩
  rcases perform_unassembled found idle auto locking
    (unassembled _ (Solver.SameMarks.pin solver 0).settings) (.ofDepth 9 3) with
    ⟨lockDraft, isLock, locks, _⟩
  rcases perform_unassembled found idle auto settingX
    (unassembled _ (Solver.SameMarks.holdAt solver 0 7).settings)
    (.ofDepth 9 3) with
    ⟨xDraft, isXDraft, setsX, _⟩
  rcases perform_unassembled found idle auto settingY
    (unassembled _ (Solver.SameMarks.holdAt solver 1 7).settings)
    (.ofDepth 9 3) with
    ⟨yDraft, isYDraft, setsY, _⟩
  rw [Task.leaves, unlockedX, Option.isSome_none, if_neg Bool.false_ne_true]
    at isXDraft
  rw [Task.leaves, lockedY, Option.isSome_some, if_pos rfl] at isYDraft
  exact ⟨solver, found, hasLock, ⟨addDraft, isAdd ▸ added, adds _ _ _ rfl⟩,
    ⟨lockDraft, isLock ▸ locked, locks⟩,
    ⟨xDraft, isXDraft ▸ movedX, isXDraft ▸ freedX, setsX⟩, yDraft,
    isYDraft ▸ movedY, isYDraft ▸ heldY, setsY⟩

end LiveLinear.Session
