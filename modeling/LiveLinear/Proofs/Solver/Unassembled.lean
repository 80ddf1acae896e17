import LiveLinear.Proofs.Solver.Atomicity

namespace LiveLinear

/-! # Solves that cannot begin

Some tasks store something and then solve. They take back what they have stored
if the constraints turn out to contradict each other, and only then: if the
constraints do not make a tableau in the first place, for the tolerance is
negative or a number is not finite, what was stored stays. -/

variable {α : Type} [Scalar α]

/-- The task passes its checks, and what it stores before its own solve makes
`stored` of the solver. -/
inductive Task.Stores (solver : Solver α) : Task α → Solver α → Prop
  | constraint {arguments total terms sum}
      (isSum : finite .constraintSum total = .ok sum)
      (areTerms : Edit.checkTerms solver arguments = .ok terms) :
      Stores solver (.addConstraint arguments total)
        (solver.insertConstraint { terms, sum, origin := .stated })
  | lock {handle contents} (isThere : solver.variableAt handle = .ok contents)
      (unlocked : contents.lock = none) :
      Stores solver (.lock handle) (solver.pin handle.id)
  | value {handle given number former tolerance}
      (checked : solver.checkVariable (.handle handle) = .ok handle.id)
      (isNumber : finite .variableValue given = .ok number)
      (isThere : solver.unknowns.get? handle.id = some former)
      (isTolerance : solver.settings.toleranceFor .atMost = .ok tolerance)
      (news : Scalar.negligible tolerance (number - former.value) = false) :
      Stores solver (.setValue handle given) (solver.holdAt handle.id number)

/-- What is left of what a task has stored when its own solve cannot begin:
everything, but that a variable which was not locked is no longer held at its
new value. -/
def Task.leaves : Task α → Solver α → Solver α → Solver α
  | .setValue handle _, before, stored =>
      if (before.lockOf handle.id).isSome then stored
      else stored.release handle.id
  | _, _, stored => stored

theorem Solver.assemble_of_negative {solver : Solver α} {tolerance : α}
    (isTolerance : solver.settings.tolerance = some tolerance)
    (negative : tolerance < 0)
    (areFinite : ∀ equation ∈ solver.equations,
      equation.toRow.all Scalar.isFinite = true) :
    solver.assemble = .error (.negativeTolerance tolerance) := by
  unfold assemble Tableau.make
  rw [if_pos (List.all_eq_true.mpr areFinite), isTolerance]
  exact if_pos negative

theorem Solver.letGo_of_ne {failure : Failure α}
    (other : failure ≠ .overConstrained) (solver : Solver α) (id : VariableId)
    (former : Variable α) :
    solver.letGo id former (.error failure) =
      if former.lock.isSome then solver else solver.release id := by
  cases failure with
  | overConstrained => exact absurd rfl other
  | _ => rfl

namespace Edit

variable {before after : Draft α} {failure : Failure α}
  {result : Except (Failure α) (List VariableId)}

theorem writeIfAuto_of_unassembled
    (unassembled : before.solver.assemble = .error failure)
    (auto : before.solver.settings.autoSolve = true)
    (idle : before.solver.dispatching = false)
    (yields : writeIfAuto.Yields before result after) :
    result = .error failure ∧ after.solver = before.solver.unpended := by
  have writes := writes_of_writeIfAuto yields auto
  generalize after.solver = left at writes ⊢
  cases writes with
  | deferred busy => cases busy.symm.trans idle
  | unassembled _ failed =>
      cases failed.symm.trans unassembled
      exact ⟨rfl, rfl⟩
  | refused _ assembled _ _ | written _ assembled _ =>
      cases assembled.symm.trans unassembled

/-- The steps back are for contradictions only. -/
theorem undoing_of_unassembled {undo : Solver α → Solver α} {stored : Solver α}
    {notes : List (Note α)} (unassembled : stored.assemble = .error failure)
    (auto : stored.settings.autoSolve = true)
    (idle : stored.dispatching = false)
    (yields : (writeIfAuto.undoing undo).Yields ⟨stored, notes⟩ result after) :
    result = .error failure ∧ after.solver = stored.unpended := by
  rcases yields_undoing.mp yields with ⟨middle, written, isAfter⟩
  rcases writeIfAuto_of_unassembled unassembled auto idle written with
    ⟨rfl, isMiddle⟩
  have other : failure ≠ .overConstrained := by
    rintro rfl
    exact stored.assemble_ne_overConstrained unassembled
  have isMiddleAfter : after = middle := by
    rw [isAfter]
    split
    · next contradiction => exact absurd (Except.error.inj contradiction) other
    · rfl
  exact ⟨rfl, isMiddleAfter ▸ isMiddle⟩

theorem applyValue_of_unassembled {id : VariableId} {value tolerance : α}
    {former : Variable α} (auto : before.solver.settings.autoSolve = true)
    (idle : before.solver.dispatching = false)
    (isThere : before.solver.unknowns.get? id = some former)
    (isTolerance : before.solver.settings.toleranceFor .atMost = .ok tolerance)
    (news : Scalar.negligible tolerance (value - former.value) = false)
    (unassembled : (before.solver.holdAt id value).assemble = .error failure)
    (yields : (applyValue id value).Yields before result after) :
    result = .error failure ∧
      after.solver = (before.solver.holdAt id value).unpended.letGo id former
        (.error failure) := by
  have marks := Solver.SameMarks.holdAt before.solver id value
  cases applyValue_cases yields with
  | absent absent => cases absent.symm.trans isThere
  | unread _ unread => cases unread.symm.trans isTolerance
  | noNews found given small =>
      cases found.symm.trans isThere
      cases given.symm.trans isTolerance
      cases small.symm.trans news
  | held found given _ written =>
      cases found.symm.trans isThere
      have stillAuto :
          (before.solver.holdAt id value).settings.autoSolve = true := by
        rw [marks.settings, auto]
      rcases writeIfAuto_of_unassembled unassembled stillAuto
        (marks.dispatching.trans idle) written with ⟨rfl, isMiddle⟩
      exact ⟨rfl, by rw [isMiddle]⟩

end Edit

/-- A task whose own solve cannot begin fails, and keeps what it has stored. -/
theorem Task.keeps_of_unassembled {task : Task α} {before after : Draft α}
    {stored : Solver α} {failure : Failure α}
    {result : Except (Failure α) (List VariableId)}
    (stores : task.Stores before.solver stored)
    (auto : before.solver.settings.autoSolve = true)
    (idle : before.solver.dispatching = false)
    (unassembled : stored.assemble = .error failure)
    (yields : task.edit.Yields before result after) :
    result = .error failure ∧
    after.solver = (task.leaves before.solver stored).unpended := by
  cases stores with
  | constraint isSum areTerms =>
      rw [edit_addConstraint, isSum, Edit.ofOutcome, Edit.yields_pure_bind,
        Edit.yields_check_bind_of_ok areTerms, Edit.yields_current_bind,
        Edit.yields_update_bind] at yields
      exact Edit.undoing_of_unassembled unassembled auto idle yields
  | @lock handle contents isThere unlocked =>
      have notLocked : ¬contents.lock.isSome = true := by simp [unlocked]
      have marks := Solver.SameMarks.pin before.solver handle.id
      have stillAuto :
          (before.solver.pin handle.id).settings.autoSolve = true := by
        rw [marks.settings, auto]
      rw [edit, Edit.lock, Edit.yields_check_bind_of_ok isThere,
        if_neg notLocked, Edit.yields_update_bind] at yields
      exact Edit.undoing_of_unassembled unassembled stillAuto
        (marks.dispatching.trans idle) yields
  | @value handle given number former tolerance checked isNumber isThere
      isTolerance news =>
      rw [edit, Edit.setValue, Edit.yields_check_bind_of_ok checked, isNumber,
        Edit.ofOutcome, Edit.yields_pure_bind, Edit.yields_current_bind,
        if_neg (by simp [idle])] at yields
      rcases Edit.applyValue_of_unassembled auto idle isThere isTolerance news
        unassembled yields with ⟨failed, isAfter⟩
      have other : failure ≠ .overConstrained := by
        rintro rfl
        exact Solver.assemble_ne_overConstrained _ unassembled
      refine ⟨failed, isAfter.trans ?_⟩
      rw [Solver.letGo_of_ne other, leaves, Solver.lockOf_of_get? isThere]
      split
      · rfl
      · exact (Solver.unpended_release _ _).symm

end LiveLinear
