import LiveLinear.Proofs.Session.Trace
import LiveLinear.Proofs.Session.Unheard
import LiveLinear.Proofs.Solver.Atomicity

namespace LiveLinear

/-! # Contradictions in a session

An operation that fails because its own solve finds a contradiction ends there:
no hook is called, and what it did is taken back or was the edit that it was
asked for. -/

variable {α : Type}

theorem Task.unknowns_edited [Scalar α] (task : Task α) (solver : Solver α) :
    (task.edited solver).unknowns = solver.unknowns := by
  unfold edited
  split <;> rfl

namespace Action

variable [Scalar α] {world : World α} {id : SolverId} {solver : Solver α}
  {draft : Draft α} {failure : Failure α}

theorem addConstraint_of_failing (engine : Engine α)
    (found : world.solvers[id]? = some solver)
    {terms : List (Argument × Option α)} {total : Option α}
    (label : Option String)
    (fails : (Task.addConstraint terms total).edit.Yields ⟨solver, []⟩
      (.error failure) draft) :
    (addConstraint engine id terms total label).Yields world (.error failure)
      (world.adopt id draft) := by
  rcases Task.yields_addConstraint.mp fails with ⟨outcome, fails, isOutcome⟩
  cases outcome with
  | ok added => cases isOutcome
  | error same =>
      cases isOutcome
      exact yields_bind.mpr (.inl ⟨failure, edit_of_yields found fails, rfl⟩)

end Action

namespace Session

variable [Scalar α] {commands : List (Command α)} {trace : List (World α)}
  {world : World α} {id : SolverId} {solver : Solver α} {task : Task α}
  {draft : Draft α}

/-- Wherever in a session an operation's own solve finds a contradiction, the
operation fails without calling a hook, whatever the `engine` would do about
hooks. The variables are as they were. So are the constraints, but for the edit
of a term or a sum that was asked for, and at most the number of the next
constraint has gone up. -/
theorem perform_overConstrained {patience depth : Nat}
    (traces : Traces (.ofDepth patience depth) commands trace)
    (isMoment : world ∈ trace) (found : world.solvers[id]? = some solver)
    (solves : task.SolvesAfter solver)
    (contradicts : task.edit.Yields ⟨solver, []⟩ (.error .overConstrained)
      draft) (engine : Engine α) :
    (Action.perform engine id task.edit).Yields world (.error .overConstrained)
        (world.adopt id draft) ∧
      (∀ terms total label, task = .addConstraint terms total →
        (Action.addConstraint engine id terms total label).Yields world
          (.error .overConstrained) (world.adopt id draft)) ∧
      draft.solver.unknowns = solver.unknowns ∧
      (task.edited solver).Advanced draft.solver := by
  have coherent := (traces.represented world isMoment id solver found).coherent
  have advanced : (task.edited solver).Advanced draft.solver :=
    Task.advanced_of_overConstrained solves coherent contradicts
  refine ⟨Action.perform_of_failing engine found contradicts, ?_, ?_, advanced⟩
  · rintro terms total label rfl
    exact Action.addConstraint_of_failing engine found label contradicts
  · rcases advanced with ⟨counter, _, isAfter⟩
    rw [isAfter]
    exact task.unknowns_edited solver

/-- A world in which neither the value of `x` nor the sum of the first
constraint can change without a contradiction. -/
def rigidCommands : List (Command ℚ) :=
  [.operation (.newSolver "s" true true (.literal (some 0)) 10),
    .operation (.addVariable "s" "x" none (.literal (some 1))),
    .operation (.addVariable "s" "y" none (.literal (some 2))),
    .operation (.addConstraint "s" (some "c")
      [(.label "x", .literal (some 1)), (.label "y", .literal (some 1))]
      (.literal (some 3))),
    .operation (.addConstraint "s" none [(.label "x", .literal (some 1))]
      (.literal (some 1))),
    .operation (.lock "y"),
    .observeInline "x"
      (.ofList [(.operation (.raise .runtime "no"), false)]) none]

def rigidWorld : World ℚ :=
  ((play (.ofDepth 9 3) .empty rigidCommands).getLast?.map
    Step.world).getD .empty

theorem exists_traces_rigidWorld :
    ∃ trace, Traces (.ofDepth 9 3) rigidCommands trace ∧ rigidWorld ∈ trace :=
  exists_traces_of_last (Engine.ofDepth_sound 9 3) (by decide +kernel)

/-- Whether an edit ends with a contradiction. -/
def contradicts {β : Type} (edit : Edit ℚ β) (before : Solver ℚ) : Bool :=
  match (edit.run ⟨before, []⟩).1 with
  | .error .overConstrained => true
  | _ => false

theorem exists_yields_of_contradicts {β : Type} {edit : Edit ℚ β}
    {before : Solver ℚ} (isContradiction : contradicts edit before = true) :
    ∃ draft, edit.Yields ⟨before, []⟩ (.error .overConstrained) draft := by
  unfold contradicts at isContradiction
  split at isContradiction
  · next isError =>
      have yields := edit.yields_run ⟨before, []⟩
      rw [isError] at yields
      exact ⟨_, yields⟩
  · cases isContradiction

theorem perform_overConstrained_rigidWorld :
    ∃ solver, rigidWorld.solvers[0]? = some solver ∧ solver.lockOf 0 = none ∧
      (∃ draft,
          (Action.perform (.ofDepth 9 3) 0
            (Edit.setValue ⟨0, 0⟩ (some 5))).Yields rigidWorld
            (.error .overConstrained) (rigidWorld.adopt 0 draft) ∧
        draft.solver.unknowns = solver.unknowns ∧
        solver.Advanced draft.solver) ∧
      ∃ draft,
          (Action.perform (.ofDepth 9 3) 0 (Edit.setSum ⟨0, 0⟩ (some 4))).Yields
            rigidWorld (.error .overConstrained) (rigidWorld.adopt 0 draft) ∧
        draft.solver.unknowns = solver.unknowns ∧
        (solver.modifyConstraint 0 fun constraint =>
          { constraint with sum := 4 }).Advanced draft.solver := by
  rcases exists_traces_rigidWorld with ⟨trace, traces, isMoment⟩
  have isThere : rigidWorld.solvers[0]?.isSome = true := by decide +kernel
  have suited : ∀ solver ∈ rigidWorld.solvers[0]?, solver.lockOf 0 = none ∧
      contradicts (Edit.setValue ⟨0, 0⟩ (some 5)) solver = true ∧
      contradicts (Edit.setSum ⟨0, 0⟩ (some 4)) solver = true := by
      decide +kernel
  rcases Option.isSome_iff_exists.mp isThere with ⟨solver, found⟩
  rcases suited solver found with ⟨unlocked, setting, summing⟩
  rcases exists_yields_of_contradicts setting with ⟨valueDraft, valueFails⟩
  rcases exists_yields_of_contradicts summing with ⟨sumDraft, sumFails⟩
  have valueSolves : (Task.setValue ⟨0, 0⟩ (some 5)).SolvesAfter solver :=
    unlocked
  have sumSolves : (Task.setSum ⟨0, 0⟩ (some 4)).SolvesAfter solver := trivial
  have setValue :=
    perform_overConstrained traces isMoment found valueSolves valueFails
      (.ofDepth 9 3)
  have setSum :=
    perform_overConstrained traces isMoment found sumSolves sumFails
      (.ofDepth 9 3)
  exact ⟨solver, found, unlocked, ⟨valueDraft, setValue.1, setValue.2.2⟩,
    ⟨sumDraft, setSum.1, setSum.2.2⟩⟩

end Session

end LiveLinear
