import LiveLinear.Proofs.Solver.Finiteness

namespace LiveLinear

/-! # Failing over a number

Where a solve fails because a number is not finite, a constraint has such a
number, and still has it afterwards. Values are finite when they are queued, and
while they wait. -/

variable {α : Type}

/-! ## Checks do not reach the equations -/

theorem finite_ne_entriesNotFinite [Scalar α] (quantity : Quantity)
    (given : Option α) :
    finite quantity given ≠ .error .entriesNotFinite := by
  unfold finite
  split
  · simp
  · split <;> simp

theorem Settings.toleranceFor_ne_entriesNotFinite (settings : Settings α)
    (comparison : Comparison) :
    settings.toleranceFor comparison ≠ .error .entriesNotFinite := by
  unfold toleranceFor
  split <;> simp

namespace Solver

theorem checkVariable_ne_entriesNotFinite (solver : Solver α)
    (argument : Argument) :
    solver.checkVariable argument ≠ .error .entriesNotFinite := by
  unfold checkVariable
  split
  · simp
  · split
    · simp
    · split <;> simp

theorem variableAt_ne_entriesNotFinite (solver : Solver α)
    (handle : VariableHandle) :
    solver.variableAt handle ≠ .error .entriesNotFinite := by
  unfold variableAt
  split
  · simp
  · split <;> simp

theorem constraintAt_ne_entriesNotFinite (solver : Solver α)
    (handle : ConstraintHandle) :
    solver.constraintAt handle ≠ .error .entriesNotFinite := by
  unfold constraintAt
  split
  · simp
  · split <;> simp

variable [Scalar α]

theorem constraints_release_holdAt {solver : Solver α}
    (coherent : solver.Coherent) {id : VariableId} {former : Variable α}
    (found : solver.unknowns.get? id = some former)
    (unlocked : former.lock = none) (value : α) :
    ((solver.holdAt id value).release id).constraints = solver.constraints := by
  rw [release_eq (coherent_holdAt coherent id value)]
  exact (apart_holdAt coherent found value).trans
    (apart_of_unlocked ((lockOf_of_get? found).trans unlocked))

end Solver

variable [Scalar α]

theorem Edit.checkTerms_ne_entriesNotFinite (solver : Solver α)
    (terms : List (Argument × Option α)) :
    checkTerms solver terms ≠ .error .entriesNotFinite := by
  unfold checkTerms
  generalize Table.empty = stored
  induction terms generalizing stored with
  | nil => simp [pure, Except.pure]
  | cons term rest induction =>
      rw [List.foldlM_cons]
      have number := finite_ne_entriesNotFinite .coefficient term.2
      have live := solver.checkVariable_ne_entriesNotFinite term.1
      generalize finite .coefficient term.2 = checked at number
      cases checked with
      | error failure => simpa [bind, Except.bind] using number
      | ok coefficient =>
          generalize solver.checkVariable term.1 = found at live
          cases found with
          | error failure => simpa [bind, Except.bind] using live
          | ok id =>
              simpa [bind, Except.bind, pure, Except.pure] using induction _

/-! ## Stored numbers are to blame -/

namespace Edit

def Blames {β : Type} (edit : Edit α β) : Prop :=
  ∀ before after, edit.Yields before (.error .entriesNotFinite) after →
    ¬after.solver.StoresFinite

namespace Blames

variable {β γ : Type} {edit : Edit α β} {next : β → Edit α γ}

theorem pure (value : β) : Blames (Pure.pure value : Edit α β) :=
  fun _ _ yields => nomatch (yields_pure.mp yields).1

theorem current : Blames (current : Edit α (Solver α)) :=
  fun _ _ yields => nomatch (yields_current.mp yields).1

theorem update (change : Solver α → Solver α) : Blames (update change) :=
  fun _ _ yields => nomatch (yields_update.mp yields).1

theorem ofOutcome {outcome : Except (Failure α) β}
    (harmless : outcome ≠ .error .entriesNotFinite) :
    Blames (ofOutcome outcome) :=
  fun _ _ yields => absurd (yields_ofOutcome.mp yields).1.symm harmless

theorem check {condition : Solver α → Except (Failure α) β}
    (harmless : ∀ solver, condition solver ≠ .error .entriesNotFinite) :
    Blames (check condition) :=
  fun before _ yields =>
    absurd (yields_check.mp yields).1.symm (harmless before.solver)

theorem bind (first : Blames edit) (later : ∀ value, Blames (next value)) :
    Blames (edit >>= next) := by
  intro before after yields
  rcases yields_bind.mp yields with ⟨_, failed, same⟩ | ⟨value, middle, _, rest⟩
  · cases same
    exact first _ _ failed
  · exact later value _ _ rest

theorem undoing (blames : Blames edit) (undo : Solver α → Solver α) :
    Blames (edit.undoing undo) := by
  intro before after yields
  rcases yields_undoing.mp yields with ⟨middle, failed, rfl⟩
  exact blames _ _ failed

theorem still (blames : Blames edit) : Blames edit.still :=
  blames.bind fun _ => pure []

end Blames

variable [FiniteUnits α]

theorem writeSolution_blames : Blames (writeSolution : Edit α _) := by
  intro before after yields stores
  have writes := (writeSolution_cases yields).1
  generalize after.solver = later at writes stores
  cases writes with
  | unassembled _ failed =>
      have former : before.solver.StoresFinite := stores.of_constraints rfl
      exact former.assemble_ne failed

theorem writeIfAuto_blames : Blames (writeIfAuto : Edit α _) := by
  refine Blames.current.bind fun solver => ?_
  split
  · exact writeSolution_blames
  · exact .pure []

/-- Asking about the constraints fails so if they are the ones that are
there. -/
theorem reduction_blames {β : Type} {next : (solver : Solver α) →
      Tableau α solver.unknowns.size → Edit α β}
    (later : ∀ solver tableau, Blames (next solver tableau)) : Blames (do
      let solver ← current
      next solver (← reduction solver)) := by
  intro before after yields
  rw [yields_current_bind] at yields
  rcases yields_bind.mp yields with ⟨failure, failed, same⟩
    | ⟨tableau, middle, _, rest⟩
  · cases same
    rcases reduction_cases failed with ⟨isAfter, isFailure, _⟩
    intro stores
    rw [isAfter] at stores
    cases assembled : before.solver.assemble with
    | error cause =>
        rw [assembled] at isFailure
        cases isFailure
        exact stores.assemble_ne assembled
    | ok tableau =>
        rw [assembled] at isFailure
        cases isFailure
  · exact later _ tableau _ _ rest

theorem modifyConstraint_blames (held : ConstraintId)
    (change : Constraint α → Constraint α) :
    Blames (do
      update fun solver => solver.modifyConstraint held change
      writeIfAuto) :=
  (Blames.update _).bind fun _ => writeIfAuto_blames

/-- A finite value that a variable is held at for a while is not to blame. -/
theorem applyValue_blames {id : VariableId} {value : α} {before after : Draft α}
    (coherent : before.solver.Coherent) (number : Scalar.isFinite value = true)
    (yields : (applyValue id value).Yields before (.error .entriesNotFinite)
      after) :
    ¬after.solver.StoresFinite := by
  generalize isResult : Except.error Failure.entriesNotFinite = result at yields
  cases applyValue_cases yields with
  | absent _ | noNews _ _ _ => cases isResult
  | unread _ unread =>
      cases isResult
      exact absurd unread (Settings.toleranceFor_ne_entriesNotFinite _ _)
  | @held former _ outcome middle found _ _ written =>
      cases outcome with
      | ok moved => cases isResult
      | error failure =>
          cases isResult
          have blamed := writeIfAuto_blames _ _ written
          have kept := constraints_writeIfAuto written
          intro stores
          cases isLock : former.lock with
          | some held =>
              simp only [Solver.letGo, isLock, Option.isSome_some, if_true]
                at stores
              exact blamed stores
          | none =>
              simp only [Solver.letGo, isLock, Option.isSome_none,
                Bool.false_eq_true, if_false] at stores
              rw [writeIfAuto_of_error written, ← Solver.unpended_release]
                at stores
              have freed :=
                Solver.constraints_release_holdAt coherent found isLock value
              have former : before.solver.StoresFinite :=
                stores.of_constraints freed.symm
              exact blamed ((former.holdAt id number).of_constraints kept)

theorem setValue_blames {handle : VariableHandle} {given : Option α}
    {before after : Draft α} (coherent : before.solver.Coherent)
    (yields : (setValue handle given).Yields before (.error .entriesNotFinite)
      after) :
    ¬after.solver.StoresFinite := by
  rcases yields_check_bind.mp yields with ⟨failure, failed, same, _⟩
    | ⟨target, _, valuing⟩
  · cases same
    exact absurd failed (Solver.checkVariable_ne_entriesNotFinite _ _)
  · rcases yields_ofOutcome_bind.mp valuing with
      ⟨failure, failed, same, _⟩ | ⟨number, isNumber, rest⟩
    · cases same
      exact absurd failed (finite_ne_entriesNotFinite _ _)
    · rw [yields_current_bind] at rest
      split at rest
      · simp only [yields_update_bind, yields_note_bind, yields_pure] at rest
        cases rest.1
      · exact applyValue_blames coherent (isFinite_of_finite isNumber) rest

end Edit

/-- A task that fails over a number leaves it in a constraint. -/
theorem Task.edit_blames [FiniteUnits α] {task : Task α}
    {before after : Draft α} (coherent : before.solver.Coherent)
    (yields : task.edit.Yields before (.error .entriesNotFinite) after) :
    ¬after.solver.StoresFinite := by
  open Edit in
  have number : ∀ (quantity : Quantity) (given : Option α),
      Blames (Edit.ofOutcome (finite quantity given)) :=
    fun quantity given => .ofOutcome (finite_ne_entriesNotFinite quantity given)
  have live : ∀ handle : VariableHandle,
      Blames (Edit.check fun solver : Solver α => solver.variableAt handle) :=
    fun handle => .check fun solver =>
      solver.variableAt_ne_entriesNotFinite handle
  have present : ∀ handle : ConstraintHandle,
      Blames (Edit.check fun solver : Solver α => solver.constraintAt handle) :=
    fun handle => .check fun solver =>
      solver.constraintAt_ne_entriesNotFinite handle
  have checked : ∀ argument : Argument,
      Blames (Edit.check fun solver : Solver α =>
        solver.checkVariable argument) :=
    fun argument => .check fun solver =>
      solver.checkVariable_ne_entriesNotFinite argument
  cases task with
  | solve => exact writeSolution_blames _ _ yields
  | addVariable name value =>
      refine Blames.still ((number _ _).bind fun value => ?_) _ _ yields
      exact Blames.current.bind fun _ => (Blames.update _).bind fun _ => .pure _
  | setValue handle value => exact setValue_blames coherent yields
  | lock handle =>
      refine ((live handle).bind fun contents => ?_) _ _ yields
      split
      · exact .pure _
      · exact (Blames.update _).bind fun _ => writeIfAuto_blames.undoing _
  | unlock handle =>
      exact Blames.still ((live handle).bind fun _ => .update _) _ _ yields
  | deleteVariable handle =>
      exact Blames.still ((live handle).bind fun _ => .update _) _ _ yields
  | observe handle hook =>
      exact Blames.still ((live handle).bind fun _ => .update _) _ _ yields
  | forget target hook => exact Blames.still (.update _) _ _ yields
  | addConstraint terms total =>
      rw [edit_addConstraint] at yields
      refine ((number _ _).bind fun sum => ?_) _ _ yields
      refine (Blames.check fun solver =>
        checkTerms_ne_entriesNotFinite solver terms).bind fun _ => ?_
      exact Blames.current.bind fun _ => (Blames.update _).bind fun _ =>
        writeIfAuto_blames.undoing _
  | setTerm handle target coefficient =>
      exact ((present handle).bind fun _ => (number _ _).bind fun _ =>
        (checked target).bind fun _ => modifyConstraint_blames _ _) _ _ yields
  | addTerm handle target coefficient =>
      exact ((present handle).bind fun _ => (checked target).bind fun _ =>
        (number _ _).bind fun _ => modifyConstraint_blames _ _) _ _ yields
  | removeTerm handle target =>
      exact ((present handle).bind fun _ => (checked target).bind fun _ =>
        modifyConstraint_blames _ _) _ _ yields
  | setSum handle total =>
      exact ((number _ _).bind fun _ => (present handle).bind fun _ =>
        modifyConstraint_blames _ _) _ _ yields
  | deleteConstraint handle =>
      exact Blames.still ((present handle).bind fun _ => .update _) _ _ yields
  | isOverConstrained | isUnderConstrained | freeVariables =>
      exact Blames.still (reduction_blames fun _ _ => .pure _) _ _ yields

/-! ## Values that wait -/

def Draft.QueuesOn (before after : Draft α) : Prop :=
  before.solver.QueuesFinite → after.solver.QueuesFinite

namespace Edit

open Draft (QueuesOn)

theorem queuing : Lasting (QueuesOn : Draft α → Draft α → Prop) :=
  ⟨fun _ => id, fun _ _ _ left right queues => right (left queues)⟩

theorem queuesOn_of_deferred {before after : Draft α}
    (deferred : after.solver.deferred = before.solver.deferred) :
    before.QueuesOn after := by
  intro queues
  rw [Solver.QueuesFinite, deferred]
  exact queues

theorem update_queuesOn {change : Solver α → Solver α}
    (deferred : ∀ solver : Solver α,
      (change solver).deferred = solver.deferred) :
    Keeps QueuesOn (update change) :=
  keeps_update fun draft => queuesOn_of_deferred (deferred draft.solver)

theorem writeSolution_queuesOn : Keeps QueuesOn (writeSolution : Edit α _) :=
  fun _ _ _ yields =>
    queuesOn_of_deferred (writeSolution_cases yields).1.marks.2.2.2.2

theorem writeIfAuto_queuesOn : Keeps QueuesOn (writeIfAuto : Edit α _) := by
  refine queuing.bind queuing.current fun solver => ?_
  split
  · exact writeSolution_queuesOn
  · exact queuing.pure []

theorem reduction_queuesOn (solver : Solver α) :
    Keeps QueuesOn (reduction solver) :=
  fun _ _ _ yields =>
    queuesOn_of_deferred (congrArg Solver.deferred (reduction_cases yields).1)

theorem queuesOn_update_writeIfAuto {change : Solver α → Solver α}
    (deferred : ∀ solver : Solver α,
      (change solver).deferred = solver.deferred) :
    Keeps QueuesOn (do update change; writeIfAuto) :=
  queuing.bind (update_queuesOn deferred) fun _ => writeIfAuto_queuesOn

theorem applyValue_queuesOn (id : VariableId) (value : α) :
    Keeps QueuesOn (applyValue id value) := by
  intro before result after yields
  cases applyValue_cases yields with
  | absent _ | unread _ _ | noNews _ _ _ => exact fun queues => queues
  | @held former _ outcome middle _ _ _ written =>
      have held :
          before.QueuesOn ⟨before.solver.holdAt id value, before.notes⟩ :=
        queuesOn_of_deferred
          (Solver.SameMarks.holdAt before.solver id value).deferred
      have freed :=
        (Solver.SameMarks.letGo middle.solver id former outcome).deferred
      exact fun queues =>
        queuesOn_of_deferred freed
          (writeIfAuto_queuesOn _ _ _ written (held queues))

/-- A value is checked before it is queued. -/
theorem setValue_queuesOn (handle : VariableHandle) (given : Option α) :
    Keeps QueuesOn (setValue handle given) := by
  refine queuing.bind (queuing.check _) fun target => ?_
  intro before result after yields
  rcases yields_ofOutcome_bind.mp yields with
    ⟨_, _, _, rfl⟩ | ⟨number, isNumber, rest⟩
  · exact id
  · rw [yields_current_bind] at rest
    split at rest
    · simp only [yields_update_bind, yields_note_bind, yields_pure] at rest
      rw [rest.2]
      intro queues item member
      rcases List.mem_append.mp member with old | new
      · exact queues item old
      · rw [List.mem_singleton.mp new]
        exact isFinite_of_finite isNumber
    · exact applyValue_queuesOn target number _ _ _ rest

end Edit

theorem Task.edit_queuesOn (task : Task α) :
    Edit.Keeps Draft.QueuesOn task.edit := by
  open Edit in
  have still : ∀ {β : Type} {edit : Edit α β}, Keeps Draft.QueuesOn edit →
      Keeps Draft.QueuesOn edit.still :=
    fun kept => queuing.bind kept fun _ => queuing.pure []
  cases task with
  | solve => exact writeSolution_queuesOn
  | addVariable name value =>
      refine still (queuing.bind (queuing.ofOutcome _) fun value => ?_)
      refine queuing.bind queuing.current fun _ => queuing.bind ?_ fun _ =>
        queuing.pure _
      exact update_queuesOn fun _ => rfl
  | setValue handle value => exact setValue_queuesOn handle value
  | lock handle =>
      refine queuing.bind (queuing.check _) fun contents => ?_
      split
      · exact queuing.pure _
      · refine queuing.bind (update_queuesOn fun solver =>
          (Solver.SameMarks.pin solver _).deferred) fun _ =>
            queuing.undoing (fun draft => ?_) writeIfAuto_queuesOn
        exact queuesOn_of_deferred
          (Solver.SameMarks.release draft.solver _).deferred
  | unlock handle =>
      exact still (queuing.bind (queuing.check _) fun _ => update_queuesOn
        fun solver => (Solver.SameMarks.release solver _).deferred)
  | deleteVariable handle =>
      exact still (queuing.bind (queuing.check _) fun _ => update_queuesOn
        fun solver => (Solver.SameMarks.eraseVariable solver _).deferred)
  | observe handle hook =>
      exact still (queuing.bind (queuing.check _) fun _ =>
        update_queuesOn fun _ => rfl)
  | forget target hook =>
      refine still (update_queuesOn fun solver => ?_)
      split
      · split <;> rfl
      · rfl
  | addConstraint terms total =>
      rw [edit_addConstraint]
      refine queuing.bind (queuing.ofOutcome _) fun sum =>
        queuing.bind (queuing.check _) fun stored =>
          queuing.bind queuing.current fun solver => ?_
      refine queuing.bind (update_queuesOn fun _ => rfl) fun _ =>
        queuing.undoing (fun draft => ?_) writeIfAuto_queuesOn
      exact queuesOn_of_deferred rfl
  | setTerm handle argument coefficient =>
      exact queuing.bind (queuing.check _) fun _ =>
          queuing.bind (queuing.ofOutcome _) fun _ =>
        queuing.bind (queuing.check _) fun _ =>
          queuesOn_update_writeIfAuto fun _ => rfl
  | addTerm handle argument coefficient =>
      exact queuing.bind (queuing.check _) fun _ =>
          queuing.bind (queuing.check _) fun _ =>
        queuing.bind (queuing.ofOutcome _) fun _ =>
          queuesOn_update_writeIfAuto fun _ => rfl
  | removeTerm handle argument =>
      exact queuing.bind (queuing.check _) fun _ =>
          queuing.bind (queuing.check _) fun _ =>
        queuesOn_update_writeIfAuto fun _ => rfl
  | setSum handle total =>
      exact queuing.bind (queuing.ofOutcome _) fun _ =>
          queuing.bind (queuing.check _) fun _ =>
        queuesOn_update_writeIfAuto fun _ => rfl
  | deleteConstraint handle =>
      exact still (queuing.bind (queuing.check _) fun _ =>
        update_queuesOn fun _ => rfl)
  | isOverConstrained | isUnderConstrained | freeVariables =>
      exact still (queuing.bind queuing.current fun solver =>
        queuing.bind (reduction_queuesOn solver) fun _ => queuing.pure _)

namespace Solver

open Edit

variable {solver : Solver α} {work : Edit α (List VariableId)} {draft : Draft α}

theorem queuesFinite_of_nextDeferred
    {result : Except (Failure α) (List VariableId)}
    (queues : solver.QueuesFinite) (next : solver.nextDeferred = some work)
    (yields : work.Yields ⟨solver, []⟩ result draft) :
    draft.solver.QueuesFinite := by
  rcases nextDeferred_cases next with ⟨target, value, rest, queue, rfl⟩
    | ⟨_, _, rfl⟩
  · simp only [takeValue, yields_update_bind, yields_note_bind] at yields
    refine applyValue_queuesOn _ _ _ _ _ yields fun item member =>
      queues item ?_
    rw [queue]
    exact List.mem_cons_of_mem _ member
  · simp only [takeSolve, yields_note_bind] at yields
    exact writeSolution_queuesOn _ _ _ yields queues

theorem blames_of_nextDeferred [FiniteUnits α] (coherent : solver.Coherent)
    (queues : solver.QueuesFinite) (next : solver.nextDeferred = some work)
    (yields : work.Yields ⟨solver, []⟩ (.error .entriesNotFinite) draft) :
    ¬draft.solver.StoresFinite := by
  rcases nextDeferred_cases next with ⟨target, value, rest, queue, rfl⟩
    | ⟨_, _, rfl⟩
  · simp only [takeValue, yields_update_bind, yields_note_bind] at yields
    have waiting : Coherent { solver with deferred := rest } := coherent
    refine applyValue_blames waiting (queues (target, value) ?_) yields
    rw [queue]
    exact List.mem_cons_self
  · simp only [takeSolve, yields_note_bind] at yields
    exact writeSolution_blames _ _ yields

end Solver

end LiveLinear
