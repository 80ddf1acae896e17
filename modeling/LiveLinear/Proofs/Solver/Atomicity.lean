import LiveLinear.Proofs.Solver.Holding
import LiveLinear.Proofs.Solver.Task

namespace LiveLinear

/-! # What a contradiction leaves behind

A task whose own solve finds that the constraints contradict each other takes
its steps back. Only an edited term or sum stays edited. -/

variable {α : Type}

/-! ## Checks do not contradict -/

theorem finite_ne_overConstrained [Scalar α] (quantity : Quantity)
    (value : Option α) :
    finite quantity value ≠ .error .overConstrained := by
  unfold finite
  split
  · simp
  · split <;> simp

theorem eq_some_of_finite [Scalar α] {quantity : Quantity} {value : Option α}
    {number : α} (checked : finite quantity value = .ok number) :
    value = some number := by
  unfold finite at checked
  split at checked
  · cases checked
  · split at checked
    · cases checked
      rfl
    · cases checked

theorem Settings.toleranceFor_ne_overConstrained (settings : Settings α)
    (comparison : Comparison) :
    settings.toleranceFor comparison ≠ .error .overConstrained := by
  unfold toleranceFor
  split <;> simp

namespace Solver

variable {solver after : Solver α}

theorem checkVariable_ne_overConstrained (solver : Solver α)
    (argument : Argument) :
    solver.checkVariable argument ≠ .error .overConstrained := by
  unfold checkVariable
  split
  · simp
  · split
    · simp
    · split <;> simp

theorem exists_handle_of_checkVariable {argument : Argument} {id : VariableId}
    (checked : solver.checkVariable argument = .ok id) :
    ∃ target, argument = .handle target ∧ target.id = id := by
  unfold checkVariable at checked
  split at checked
  · cases checked
  · next target =>
      split at checked
      · cases checked
      · split at checked
        · cases checked
          exact ⟨target, rfl, rfl⟩
        · cases checked

theorem variableAt_ne_overConstrained (solver : Solver α)
    (handle : VariableHandle) :
    solver.variableAt handle ≠ .error .overConstrained := by
  unfold variableAt
  split
  · simp
  · split <;> simp

theorem constraintAt_ne_overConstrained (solver : Solver α)
    (handle : ConstraintHandle) :
    solver.constraintAt handle ≠ .error .overConstrained := by
  unfold constraintAt
  split
  · simp
  · split <;> simp

theorem assemble_ne_overConstrained [Scalar α] (solver : Solver α) :
    solver.assemble ≠ .error .overConstrained := by
  unfold assemble Tableau.make
  split
  · split
    · simp
    · split <;> simp
  · simp

/-- The solver with no solve pending. -/
def unpended (solver : Solver α) : Solver α :=
  { solver with resolvePending := false }

theorem unpended_pin [One α] (solver : Solver α) (id : VariableId) :
    (solver.pin id).unpended = solver.unpended.pin id := by
  cases found : solver.unknowns.get? id with
  | none => simp only [pin, unpended, found]
  | some contents =>
      simp only [pin, unpended, found, modifyVariable, insertConstraint]

theorem unpended_release (solver : Solver α) (id : VariableId) :
    (solver.release id).unpended = solver.unpended.release id := by
  rcases found : solver.unknowns.get? id with
    _ | ⟨name, value, _ | held, hook⟩
      <;> simp only [release, unpended, found, modifyVariable]

theorem unpended_holdAt [Scalar α] (coherent : solver.Coherent)
    {id : VariableId} {former : Variable α}
    (found : solver.unknowns.get? id = some former) (value : α) :
    (solver.holdAt id value).unpended = solver.unpended.holdAt id value := by
  have sameCoherent : solver.unpended.Coherent := coherent
  have sameFound : solver.unpended.unknowns.get? id = some former := found
  rw [holdAt_eq coherent found, holdAt_eq sameCoherent sameFound]
  rfl

theorem Writes.eq_of_overConstrained [Scalar α]
    (writes : solver.Writes (.error .overConstrained) after) :
    after = solver.unpended := by
  cases writes with
  | unassembled _ failed =>
      exact absurd failed (assemble_ne_overConstrained solver)
  | refused _ _ _ _ => rfl

end Solver

theorem Edit.checkTerms_ne_overConstrained [Scalar α] (solver : Solver α)
    (terms : List (Argument × Option α)) :
    checkTerms solver terms ≠ .error .overConstrained := by
  unfold checkTerms
  generalize Table.empty = stored
  induction terms generalizing stored with
  | nil => simp [pure, Except.pure]
  | cons term rest induction =>
      rw [List.foldlM_cons]
      have number := finite_ne_overConstrained .coefficient term.2
      have live := solver.checkVariable_ne_overConstrained term.1
      generalize finite .coefficient term.2 = checked at number
      cases checked with
      | error failure => simpa [bind, Except.bind] using number
      | ok coefficient =>
          generalize solver.checkVariable term.1 = found at live
          cases found with
          | error failure => simpa [bind, Except.bind] using live
          | ok id =>
              simpa [bind, Except.bind, pure, Except.pure] using induction _

namespace Edit

variable {β γ : Type} {before after : Draft α} {next : β → Edit α γ}

theorem yields_ofOutcome_bind_overConstrained {outcome : Except (Failure α) β}
    (harmless : outcome ≠ .error .overConstrained) :
    (ofOutcome outcome >>= next).Yields before (.error .overConstrained) after ↔
      ∃ value, outcome = .ok value ∧
        (next value).Yields before (.error .overConstrained) after := by
  cases outcome with
  | error failure =>
      have different : failure ≠ .overConstrained := fun same =>
        harmless (congrArg _ same)
      simp [ofOutcome, different.symm]
  | ok value => simp [ofOutcome]

theorem yields_check_bind_overConstrained
    {condition : Solver α → Except (Failure α) β}
    (harmless : ∀ solver, condition solver ≠ .error .overConstrained) :
    (check condition >>= next).Yields before (.error .overConstrained) after ↔
      ∃ value, condition before.solver = .ok value ∧
        (next value).Yields before (.error .overConstrained) after :=
  yields_ofOutcome_bind_overConstrained (harmless before.solver)

section Solving

variable [Scalar α]

theorem writeSolution_overConstrained
    (yields : writeSolution.Yields before (.error .overConstrained) after) :
    after.solver = before.solver.unpended :=
  (writeSolution_cases yields).1.eq_of_overConstrained

theorem writeIfAuto_overConstrained
    (yields : writeIfAuto.Yields before (.error .overConstrained) after) :
    after.solver = before.solver.unpended := by
  rcases writeIfAuto_cases yields with ⟨_, writes⟩ | ⟨_, impossible, _⟩
  · exact writes.eq_of_overConstrained
  · cases impossible

end Solving

end Edit

/-! ## Tasks -/

/-- The tasks that end with a solve of their own and may fail because of it. A
value is given to a variable that is not locked. -/
def Task.SolvesAfter : Task α → Solver α → Prop
  | .solve, _ | .addConstraint _ _, _ | .lock _, _ | .setTerm _ _ _,
      _ | .addTerm _ _ _, _
  | .removeTerm _ _, _ | .setSum _ _, _ => True
  | .setValue handle _, solver => solver.lockOf handle.id = none
  | _, _ => False

/-- The solver with the term or the sum that a task edits. Other tasks edit
none. -/
def Task.edited [Scalar α] : Task α → Solver α → Solver α
  | .setTerm handle (.handle target) (some coefficient), solver =>
      solver.modifyConstraint handle.id fun constraint =>
        { constraint with terms := constraint.terms.put target.id coefficient }
  | .addTerm handle (.handle target) (some coefficient), solver =>
      solver.modifyConstraint handle.id fun constraint =>
        let total := match constraint.terms.get? target.id with
          | some present => present + coefficient
          | none => coefficient
        { constraint with terms := constraint.terms.put target.id total }
  | .removeTerm handle (.handle target), solver =>
      solver.modifyConstraint handle.id fun constraint =>
        { constraint with terms := constraint.terms.erase target.id }
  | .setSum handle (some sum), solver =>
      solver.modifyConstraint handle.id fun constraint =>
        { constraint with sum }
  | _, solver => solver

/-- The solver as it was with no solve pending, but for the number of the next
constraint. -/
def Solver.Advanced (before after : Solver α) : Prop :=
  ∃ counter, before.nextConstraint ≤ counter ∧
    after = { before.unpended with nextConstraint := counter }

namespace Edit

open Solver (Advanced)

variable [Scalar α] {before after : Draft α}

theorem addConstraint_overConstrained {terms : List (Argument × Option α)}
    {total : Option α} (coherent : before.solver.Coherent)
    (yields : (Task.addConstraint terms total).edit.Yields before
      (.error .overConstrained) after) :
    before.solver.Advanced after.solver := by
  rw [Task.edit_addConstraint,
    yields_ofOutcome_bind_overConstrained (finite_ne_overConstrained _ _)]
    at yields
  rcases yields with ⟨sum, _, checking⟩
  rw [yields_check_bind_overConstrained fun solver =>
    checkTerms_ne_overConstrained solver terms]
    at checking
  rcases checking with ⟨stored, _, rest⟩
  simp only [yields_current_bind, yields_update_bind, yields_undoing] at rest
  rcases rest with ⟨middle, written, rfl⟩
  have erased := Table.erase_put coherent.fresh_constraint
    ({ terms := stored, sum, origin := .stated } : Constraint α)
  refine ⟨before.solver.nextConstraint + 1, Nat.le_succ _, ?_⟩
  simp only [writeIfAuto_overConstrained written, Solver.unpended,
    Solver.insertConstraint, erased]

theorem lock_overConstrained {handle : VariableHandle}
    (coherent : before.solver.Coherent)
    (yields : (lock handle).Yields before (.error .overConstrained) after) :
    before.solver.Advanced after.solver := by
  rw [lock, yields_check_bind_overConstrained
    fun solver => solver.variableAt_ne_overConstrained handle] at yields
  rcases yields with ⟨contents, checked, rest⟩
  have found := Solver.get?_of_variableAt checked
  split at rest
  · cases (yields_pure.mp rest).1
  · next notLocked =>
      have unlocked : contents.lock = none := by simpa using notLocked
      simp only [yields_update_bind, yields_undoing] at rest
      rcases rest with ⟨middle, written, rfl⟩
      have isPinned : middle.solver = before.solver.unpended.pin handle.id := by
        rw [writeIfAuto_overConstrained written, Solver.unpended_pin]
      have taken :
          (before.solver.unpended.pin handle.id).release handle.id = _ :=
        Solver.release_pin coherent found unlocked
      refine ⟨before.solver.nextConstraint + 1, Nat.le_succ _, ?_⟩
      simp only [isPinned, taken]
      rfl

/-- Where the variable cannot have the value, it was held and has been let
go. -/
theorem exists_letGo_of_overConstrained {id : VariableId} {value : α}
    (coherent : before.solver.Coherent)
    (yields : (applyValue id value).Yields before (.error .overConstrained)
      after) :
    ∃ former, before.solver.unknowns.get? id = some former ∧
      after.solver =
        (before.solver.unpended.holdAt id value).letGo id former
          (.error .overConstrained) := by
  generalize isResult : Except.error Failure.overConstrained = result at yields
  cases applyValue_cases yields with
  | absent _ | noNews _ _ _ => cases isResult
  | unread _ unread =>
      cases isResult
      exact absurd unread (Settings.toleranceFor_ne_overConstrained _ _)
  | @held former _ outcome middle found _ _ written =>
      cases outcome with
      | ok moved => cases isResult
      | error failure =>
          cases isResult
          refine ⟨former, found, ?_⟩
          simp only [writeIfAuto_overConstrained written,
            Solver.unpended_holdAt coherent found]
          rfl

theorem exists_applyValue_of_overConstrained {handle : VariableHandle}
    {value : Option α}
    (yields : (setValue handle value).Yields before (.error .overConstrained)
      after) :
    ∃ number,
      (applyValue handle.id number).Yields before (.error .overConstrained)
        after := by
  rw [setValue, yields_check_bind_overConstrained
    fun solver => solver.checkVariable_ne_overConstrained _] at yields
  rcases yields with ⟨id, checked, rest⟩
  rcases Solver.exists_handle_of_checkVariable checked with ⟨_, isHandle, rfl⟩
  cases isHandle
  rw [yields_ofOutcome_bind_overConstrained (finite_ne_overConstrained _ _)]
    at rest
  rcases rest with ⟨number, _, applied⟩
  rw [yields_current_bind] at applied
  split at applied
  · simp only [yields_update_bind, yields_note_bind, yields_pure] at applied
    cases applied.1
  · exact ⟨number, applied⟩

theorem applyValue_overConstrained {id : VariableId} {value : α}
    (coherent : before.solver.Coherent)
    (unlocked : before.solver.lockOf id = none)
    (yields : (applyValue id value).Yields before (.error .overConstrained)
      after) :
    before.solver.Advanced after.solver := by
  rcases exists_letGo_of_overConstrained coherent yields with
    ⟨former, found, isAfter⟩
  have notLocked : former.lock = none :=
    (Solver.lockOf_of_get? found).symm.trans unlocked
  have sameCoherent : before.solver.unpended.Coherent := coherent
  refine ⟨before.solver.nextConstraint + 1, Nat.le_succ _, ?_⟩
  simp only [isAfter, Solver.letGo_overConstrained sameCoherent found,
    notLocked, Option.isSome_none, Bool.false_eq_true, if_false]
  rfl

theorem setValue_overConstrained {handle : VariableHandle} {value : Option α}
    (coherent : before.solver.Coherent)
    (unlocked : before.solver.lockOf handle.id = none)
    (yields : (setValue handle value).Yields before (.error .overConstrained)
      after) :
    before.solver.Advanced after.solver := by
  rcases exists_applyValue_of_overConstrained yields with ⟨number, applied⟩
  exact applyValue_overConstrained coherent unlocked applied

theorem modifyConstraint_overConstrained {id : ConstraintId}
    {change : Constraint α → Constraint α}
    (yields : (do
      update fun solver => solver.modifyConstraint id change
      writeIfAuto).Yields before (.error .overConstrained) after) :
    (before.solver.modifyConstraint id change).Advanced after.solver :=
  ⟨before.solver.nextConstraint, Nat.le_refl _,
    writeIfAuto_overConstrained (yields_update_bind.mp yields)⟩

theorem setTerm_overConstrained {handle : ConstraintHandle}
    {argument : Argument} {coefficient : Option α}
    (yields : (setTerm handle argument coefficient).Yields before
      (.error .overConstrained) after) :
    ((Task.setTerm handle argument coefficient).edited before.solver).Advanced
      after.solver := by
  rw [setTerm, yields_check_bind_overConstrained
    fun solver => solver.constraintAt_ne_overConstrained handle] at yields
  rcases yields with ⟨_, _, checking⟩
  rw [yields_ofOutcome_bind_overConstrained (finite_ne_overConstrained _ _)]
    at checking
  rcases checking with ⟨number, isNumber, looking⟩
  rw [yields_check_bind_overConstrained
    fun solver => solver.checkVariable_ne_overConstrained argument] at looking
  rcases looking with ⟨id, checked, rest⟩
  rcases Solver.exists_handle_of_checkVariable checked with ⟨target, rfl, rfl⟩
  cases eq_some_of_finite isNumber
  exact modifyConstraint_overConstrained rest

theorem addTerm_overConstrained {handle : ConstraintHandle}
    {argument : Argument} {coefficient : Option α}
    (yields : (addTerm handle argument coefficient).Yields before
      (.error .overConstrained) after) :
    ((Task.addTerm handle argument coefficient).edited before.solver).Advanced
      after.solver := by
  rw [addTerm, yields_check_bind_overConstrained
    fun solver => solver.constraintAt_ne_overConstrained handle] at yields
  rcases yields with ⟨_, _, looking⟩
  rw [yields_check_bind_overConstrained
    fun solver => solver.checkVariable_ne_overConstrained argument] at looking
  rcases looking with ⟨id, checked, checking⟩
  rw [yields_ofOutcome_bind_overConstrained (finite_ne_overConstrained _ _)]
    at checking
  rcases checking with ⟨number, isNumber, rest⟩
  rcases Solver.exists_handle_of_checkVariable checked with ⟨target, rfl, rfl⟩
  cases eq_some_of_finite isNumber
  exact modifyConstraint_overConstrained rest

theorem removeTerm_overConstrained {handle : ConstraintHandle}
    {argument : Argument}
    (yields : (removeTerm handle argument).Yields before
      (.error .overConstrained) after) :
    ((Task.removeTerm handle argument).edited before.solver).Advanced
      after.solver := by
  rw [removeTerm, yields_check_bind_overConstrained
    fun solver => solver.constraintAt_ne_overConstrained handle] at yields
  rcases yields with ⟨_, _, looking⟩
  rw [yields_check_bind_overConstrained
    fun solver => solver.checkVariable_ne_overConstrained argument] at looking
  rcases looking with ⟨id, checked, rest⟩
  rcases Solver.exists_handle_of_checkVariable checked with ⟨target, rfl, rfl⟩
  exact modifyConstraint_overConstrained rest

theorem setSum_overConstrained {handle : ConstraintHandle} {total : Option α}
    (yields : (setSum handle total).Yields before (.error .overConstrained)
      after) :
    ((Task.setSum handle total).edited before.solver).Advanced
      after.solver := by
  rw [setSum,
    yields_ofOutcome_bind_overConstrained (finite_ne_overConstrained _ _)]
    at yields
  rcases yields with ⟨sum, isSum, looking⟩
  rw [yields_check_bind_overConstrained
    fun solver => solver.constraintAt_ne_overConstrained handle] at looking
  rcases looking with ⟨_, _, rest⟩
  cases eq_some_of_finite isSum
  exact modifyConstraint_overConstrained rest

end Edit

theorem Task.advanced_of_overConstrained [Scalar α] {task : Task α}
    {before after : Draft α} (solves : task.SolvesAfter before.solver)
    (coherent : before.solver.Coherent)
    (yields : task.edit.Yields before (.error .overConstrained) after) :
    (task.edited before.solver).Advanced after.solver := by
  cases task with
  | solve => exact ⟨_, Nat.le_refl _, Edit.writeSolution_overConstrained yields⟩
  | setValue handle value =>
      exact Edit.setValue_overConstrained coherent solves yields
  | lock handle => exact Edit.lock_overConstrained coherent yields
  | addConstraint terms total =>
      exact Edit.addConstraint_overConstrained coherent yields
  | setTerm handle argument coefficient =>
      exact Edit.setTerm_overConstrained yields
  | addTerm handle argument coefficient =>
      exact Edit.addTerm_overConstrained yields
  | removeTerm handle argument => exact Edit.removeTerm_overConstrained yields
  | setSum handle total => exact Edit.setSum_overConstrained yields
  | _ => exact solves.elim

end LiveLinear
