import LiveLinear.Proofs.Elimination.Accuracy
import LiveLinear.Proofs.Solver.Assembly
import LiveLinear.Proofs.Solver.Rewriting
import LiveLinear.Proofs.Solver.Upkeep

namespace LiveLinear

/-! # Consistency

With exact arithmetic and tolerance zero, a solver that solves by itself keeps
its constraints satisfied, or knows that it has still to solve. -/

/-- Tolerance zero, and contradictions are refused. -/
structure Settings.Exact (settings : Settings ℚ) : Prop where
  tolerance : settings.tolerance = some 0
  refuses : settings.refusesContradiction = true

namespace Solver

/-- Every constraint holds exactly. -/
def Satisfied (solver : Solver ℚ) : Prop :=
  ∀ constraint ∈ solver.constraints.values, solver.residual constraint = 0

def Tidy (solver : Solver ℚ) : Prop :=
  solver.settings.autoSolve = true → solver.Satisfied ∨
    solver.resolvePending = true

variable {solver before after : Solver ℚ}

theorem satisfied_of_written (coherent : solver.Coherent)
    (exactly : solver.settings.Exact) {tableau : Tableau ℚ solver.unknowns.size}
    (assembled : solver.assemble = .ok tableau)
    (accepted : tableau.reduce.isOverConstrained = true →
      solver.settings.refusesContradiction = false) :
    (solver.storePoint (tableau.reduce.solve solver.point)).Satisfied := by
  have isZero := tolerance_of_assembled assembled exactly.tolerance
  have noContradiction := consistent_of_accepted exactly.refuses accepted
  intro constraint member
  have inTableau := equation_mem_of_assembled assembled member
  rw [coherent.residual_storePoint _
    (coherent.constraintsOver constraint member)]
  exact tableau.residual_solve_eq_zero _ isZero noContradiction inTableau

theorem Writes.tidy {moved : List VariableId}
    (writes : solver.Writes (.ok moved) after) (coherent : solver.Coherent)
    (exactly : solver.settings.Exact) : after.Tidy := by
  cases writes with
  | deferred _ => exact fun _ => .inr rfl
  | written _ assembled accepted =>
      exact fun _ =>
        .inl (satisfied_of_written coherent exactly assembled accepted)

/-! ## Changes that cannot break a constraint -/

/-- No constraint has been added or changed, and no variable has another
value. -/
structure Relaxes (before after : Solver ℚ) : Prop where
  settings : after.settings = before.settings
  resolvePending : after.resolvePending = before.resolvePending
  constraints : ∀ constraint ∈ after.constraints.values,
    constraint ∈ before.constraints.values
  values : ∀ id ∈ before.unknowns.keys, after.valueOf id = before.valueOf id

theorem residual_congr {constraint : Constraint ℚ}
    (same : ∀ id ∈ constraint.terms.keys,
      after.valueOf id = before.valueOf id) :
    after.residual constraint = before.residual constraint := by
  have terms :
      (constraint.terms.entries.map fun term => term.2 * after.valueOf term.1) =
        constraint.terms.entries.map fun term =>
          term.2 * before.valueOf term.1 := by
    apply List.map_congr_left
    intro term member
    rw [same term.1 (List.mem_map_of_mem member)]
  rw [residual, residual, evaluate_eq_sum, evaluate_eq_sum, terms]

theorem Satisfied.relax (satisfied : before.Satisfied)
    (coherent : before.Coherent) (relaxes : before.Relaxes after) :
    after.Satisfied := by
  intro constraint member
  have former := relaxes.constraints constraint member
  have isOver := coherent.constraintsOver constraint former
  rw [residual_congr fun id mentioned =>
    relaxes.values id (isOver.live id mentioned)]
  exact satisfied constraint former

theorem Tidy.relax (tidy : before.Tidy) (coherent : before.Coherent)
    (relaxes : before.Relaxes after) : after.Tidy := by
  intro auto
  rw [relaxes.settings] at auto
  rcases tidy auto with satisfied | pending
  · exact .inl (satisfied.relax coherent relaxes)
  · exact .inr (relaxes.resolvePending.trans pending)

theorem valueOf_modifyVariable {α : Type} [Scalar α] (solver : Solver α)
    (id other : VariableId) {change : Variable α → Variable α}
    (same : ∀ contents, (change contents).value = contents.value) :
    (solver.modifyVariable id change).valueOf other = solver.valueOf other := by
  simp only [valueOf, modifyVariable, Table.get?_modify]
  split
  · cases solver.unknowns.get? other <;> simp [same]
  · rfl

namespace Relaxes

theorem refl (solver : Solver ℚ) : solver.Relaxes solver :=
  ⟨rfl, rfl, fun _ member => member, fun _ _ => rfl⟩

theorem setHook (solver : Solver ℚ) (id : VariableId) (hook : Option HookId) :
    solver.Relaxes (solver.setHook id hook) :=
  ⟨rfl, rfl, fun _ member => member,
    fun other _ => valueOf_modifyVariable solver id other fun _ => rfl⟩

theorem release (solver : Solver ℚ) (id : VariableId) :
    solver.Relaxes (solver.release id) := by
  unfold Solver.release
  split
  · refine ⟨rfl, rfl, ?_, ?_⟩
    · exact fun _ member => (Table.values_erase_sublist _ _).subset member
    · exact fun other _ => valueOf_modifyVariable solver id other fun _ => rfl
  · exact refl solver

theorem eraseConstraint (solver : Solver ℚ) (id : ConstraintId) :
    solver.Relaxes (solver.eraseConstraint id) := by
  refine ⟨rfl, rfl, ?_, ?_⟩
  · exact fun _ member => (Table.values_erase_sublist _ _).subset member
  · intro other _
    simp only [valueOf, Solver.eraseConstraint, Table.get?_map]
    cases solver.unknowns.get? other with
    | none => rfl
    | some contents =>
        simp only [Option.map_some]
        split <;> rfl

theorem insertVariable (coherent : solver.Coherent) (name : Option String)
    (value : ℚ) :
    solver.Relaxes (solver.insertVariable name value) := by
  refine ⟨rfl, rfl, fun _ member => member, ?_⟩
  intro id live
  have different : id ≠ solver.nextVariable := by
    intro equal
    rw [equal] at live
    exact coherent.fresh_variable live
  simp only [valueOf, Solver.insertVariable, Table.get?_put_of_ne different]

end Relaxes

end Solver

/-! ## Tasks -/

namespace Edit

open Solver (Relaxes Tidy)

variable {before after : Draft ℚ}

theorem writeIfAuto_tidy {moved : List VariableId}
    (yields : writeIfAuto.Yields before (.ok moved) after)
    (coherent : before.solver.Coherent)
    (exactly : before.solver.settings.Exact) : after.solver.Tidy := by
  rcases writeIfAuto_cases yields with ⟨_, writes⟩ | ⟨off, _, rfl⟩
  · exact writes.tidy coherent exactly
  · intro on
    rw [off] at on
    cases on

theorem writeIfAuto_undoing_tidy {moved : List VariableId}
    {undo : Solver ℚ → Solver ℚ}
    (yields : (writeIfAuto.undoing undo).Yields before (.ok moved) after)
    (coherent : before.solver.Coherent)
    (exactly : before.solver.settings.Exact) :
    after.solver.Tidy := by
  rcases yields_undoing.mp yields with ⟨middle, written, rfl⟩
  exact writeIfAuto_tidy written coherent exactly

theorem applyValue_tidy {id : VariableId} {value : ℚ} {moved : List VariableId}
    (coherent : before.solver.Coherent) (exactly : before.solver.settings.Exact)
    (tidy : before.solver.Tidy)
    (yields : (applyValue id value).Yields before (.ok moved) after) :
    after.solver.Tidy := by
  generalize isResult : Except.ok moved = result at yields
  cases applyValue_cases yields with
  | absent _ | noNews _ _ _ => exact tidy
  | unread _ _ => cases isResult
  | @held former _ outcome middle _ _ _ written =>
      cases outcome with
      | error failure => cases isResult
      | ok others =>
          have heldCoherent : (before.solver.holdAt id value).Coherent :=
            ((coherent.storeValue id value).release id).pin id
          have heldExactly :
              (before.solver.holdAt id value).settings.Exact := by
            rw [(Solver.SameMarks.holdAt before.solver id value).settings]
            exact exactly
          have middleTidy := writeIfAuto_tidy written heldCoherent heldExactly
          have middleCoherent := writeIfAuto_coheres _ _ _ written heldCoherent
          dsimp only [Solver.letGo]
          split
          · exact middleTidy
          · exact middleTidy.relax middleCoherent (.release middle.solver id)

theorem setValue_tidy {handle : VariableHandle} {value : Option ℚ}
    {moved : List VariableId} (coherent : before.solver.Coherent)
    (exactly : before.solver.settings.Exact) (tidy : before.solver.Tidy)
    (yields : (setValue handle value).Yields before (.ok moved) after) :
    after.solver.Tidy := by
  simp only [setValue, yields_check_bind_ok, yields_ofOutcome_bind_ok,
    yields_current_bind] at yields
  rcases yields with ⟨id, _, number, _, rest⟩
  split at rest
  · simp only [yields_update_bind, yields_note_bind, yields_pure] at rest
    rw [rest.2]
    exact tidy
  · exact applyValue_tidy coherent exactly tidy rest

theorem addVariable_tidy {name : Option String} {value : Option ℚ}
    {id : VariableId} (coherent : before.solver.Coherent)
    (tidy : before.solver.Tidy)
    (yields : (addVariable name value).Yields before (.ok id) after) :
    after.solver.Tidy := by
  simp only [addVariable, yields_ofOutcome_bind_ok, yields_current_bind,
    yields_update_bind, yields_pure] at yields
  rcases yields with ⟨number, _, _, rfl⟩
  exact tidy.relax coherent (.insertVariable coherent name number)

theorem lock_tidy {handle : VariableHandle} {moved : List VariableId}
    (coherent : before.solver.Coherent) (exactly : before.solver.settings.Exact)
    (tidy : before.solver.Tidy)
    (yields : (lock handle).Yields before (.ok moved) after) :
    after.solver.Tidy := by
  simp only [lock, yields_check_bind_ok] at yields
  rcases yields with ⟨contents, _, rest⟩
  split at rest
  · rw [(yields_pure.mp rest).2]
    exact tidy
  · have pinned : (before.solver.pin handle.id).settings.Exact := by
      rw [(Solver.SameMarks.pin before.solver handle.id).settings]
      exact exactly
    exact writeIfAuto_undoing_tidy (yields_update_bind.mp rest)
      (coherent.pin handle.id) pinned

theorem edited_tidy {task : Task ℚ} {id : ConstraintId}
    {moved : List VariableId} (edits : task.edited? before.solver = some id)
    (coherent : before.solver.Coherent) (exactly : before.solver.settings.Exact)
    (yields : task.edit.Yields before (.ok moved) after) :
    after.solver.Tidy := by
  rcases Task.exists_rewrites edits coherent yields with
    ⟨middle, rewrites, rewritten, written⟩
  refine writeIfAuto_tidy written rewritten ?_
  rw [rewrites.settings]
  exact exactly

theorem relaxing_tidy {β : Type} {condition : Solver ℚ → Except (Failure ℚ) β}
    {change : Solver ℚ → Solver ℚ}
    (relaxes : ∀ solver : Solver ℚ, solver.Relaxes (change solver))
    (coherent : before.solver.Coherent) (tidy : before.solver.Tidy)
    (yields : (do
      let _ ← check condition
      update change).Yields before (.ok ()) after) : after.solver.Tidy := by
  simp only [yields_check_bind_ok, yields_update] at yields
  rcases yields with ⟨_, _, _, rfl⟩
  exact tidy.relax coherent (relaxes before.solver)

theorem forget_tidy {id : VariableId} {hook : Option HookId}
    (coherent : before.solver.Coherent) (tidy : before.solver.Tidy)
    (yields : (forget id hook).Yields before (.ok ()) after) :
    after.solver.Tidy := by
  rcases yields_update.mp yields with ⟨_, rfl⟩
  dsimp only
  split
  · split
    · exact tidy.relax coherent (.setHook before.solver id none)
    · exact tidy
  · exact tidy

theorem reduction_tidy {solver : Solver ℚ} {β : Type}
    {read : Tableau ℚ solver.unknowns.size → β} {value : β}
    (tidy : before.solver.Tidy)
    (yields : (do return read (← reduction solver)).Yields before (.ok value)
      after) :
    after.solver.Tidy := by
  rcases yields_bind_pure.mp yields with ⟨outcome, reduced, _⟩
  rw [(reduction_cases reduced).1]
  exact tidy

theorem still_tidy {β : Type} {edit : Edit ℚ β} {moved : List VariableId}
    (tidy : ∀ value, edit.Yields before (.ok value) after → after.solver.Tidy)
    (yields : edit.still.Yields before (.ok moved) after) :
    after.solver.Tidy := by
  rcases yields_still.mp yields with ⟨outcome, done, equal⟩
  cases outcome with
  | error failure => cases equal
  | ok value => exact tidy value done

end Edit

open Edit in
/-- Every task but the deletion of a variable leaves a solver tidy, if it
succeeds. -/
theorem Task.edit_tidy {task : Task ℚ} {before after : Draft ℚ}
    {moved : List VariableId}
    (yields : task.edit.Yields before (.ok moved) after)
    (keepsVariables : ∀ handle, task ≠ .deleteVariable handle)
    (coherent : before.solver.Coherent) (exactly : before.solver.settings.Exact)
    (tidy : before.solver.Tidy) : after.solver.Tidy := by
  cases task with
  | solve => exact (writeSolution_cases yields).1.tidy coherent exactly
  | addVariable name value =>
      exact still_tidy
        (fun _ added => addVariable_tidy coherent tidy added) yields
  | setValue handle value => exact setValue_tidy coherent exactly tidy yields
  | lock handle => exact lock_tidy coherent exactly tidy yields
  | unlock handle =>
      refine still_tidy (fun _ done => ?_) yields
      exact relaxing_tidy (fun solver => .release solver handle.id) coherent
        tidy done
  | deleteVariable handle => exact absurd rfl (keepsVariables handle)
  | observe handle hook =>
      refine still_tidy (fun _ done => ?_) yields
      exact relaxing_tidy (fun solver => .setHook solver handle.id hook)
        coherent tidy done
  | forget id hook =>
      exact still_tidy (fun _ done => forget_tidy coherent tidy done) yields
  | addConstraint _ _ | setTerm _ _ _ | addTerm _ _ _ | removeTerm _ _
      | setSum _ _ =>
      exact edited_tidy rfl coherent exactly yields
  | deleteConstraint handle =>
      refine still_tidy (fun _ done => ?_) yields
      exact relaxing_tidy (fun solver => .eraseConstraint solver handle.id)
        coherent tidy done
  | isOverConstrained =>
      refine still_tidy (fun _ done => ?_) yields
      exact reduction_tidy tidy (yields_current_bind.mp done)
  | isUnderConstrained =>
      refine still_tidy (fun _ done => ?_) yields
      exact reduction_tidy tidy (yields_current_bind.mp done)
  | freeVariables =>
      refine still_tidy (fun _ done => ?_) yields
      exact reduction_tidy tidy (yields_current_bind.mp done)

namespace Solver

theorem tidy_of_nextDeferred {solver : Solver ℚ} {after : Draft ℚ}
    {work : Edit ℚ (List VariableId)} {moved : List VariableId}
    (next : solver.nextDeferred = some work)
    (yields : work.Yields ⟨solver, []⟩ (.ok moved) after)
    (coherent : solver.Coherent) (exactly : solver.settings.Exact)
    (tidy : solver.Tidy) : after.solver.Tidy := by
  rcases nextDeferred_cases next with ⟨target, value, rest, _, rfl⟩
    | ⟨_, _, rfl⟩
  · simp only [Edit.takeValue, Edit.yields_update_bind, Edit.yields_note_bind]
      at yields
    exact Edit.applyValue_tidy coherent exactly tidy yields
  · rw [Edit.takeSolve, Edit.yields_note_bind] at yields
    exact (Edit.writeSolution_cases yields).1.tidy coherent exactly

structure Consistent (solver : Solver ℚ) : Prop where
  coherent : solver.Coherent
  exactly : solver.settings.Exact
  tidy : solver.Tidy

namespace Consistent

theorem of_edit {solver : Solver ℚ} {task : Task ℚ} {draft : Draft ℚ}
    {moved : List VariableId} (consistent : solver.Consistent)
    (keepsVariables : ∀ handle, task ≠ .deleteVariable handle)
    (yields : task.edit.Yields ⟨solver, []⟩ (.ok moved) draft) :
    draft.solver.Consistent := by
  have steady := Task.edit_steady _ _ _ _ yields
  refine ⟨Task.edit_coheres _ _ _ _ yields consistent.coherent, ?_,
    Task.edit_tidy yields keepsVariables consistent.coherent consistent.exactly
    consistent.tidy⟩
  rw [steady.settings]
  exact consistent.exactly

theorem of_solve {solver : Solver ℚ} {draft : Draft ℚ} {moved : List VariableId}
    (coherent : solver.Coherent) (exactly : solver.settings.Exact)
    (yields : (Task.solve : Task ℚ).edit.Yields ⟨solver, []⟩ (.ok moved)
      draft) :
    draft.solver.Consistent := by
  have steady := Task.edit_steady _ _ _ _ yields
  refine ⟨Task.edit_coheres _ _ _ _ yields coherent, ?_,
    (Edit.writeSolution_cases yields).1.tidy coherent exactly⟩
  rw [steady.settings]
  exact exactly

theorem of_nextDeferred {solver : Solver ℚ} {work : Edit ℚ (List VariableId)}
    {draft : Draft ℚ} {moved : List VariableId} (consistent : solver.Consistent)
    (next : solver.nextDeferred = some work)
    (yields : work.Yields ⟨solver, []⟩ (.ok moved) draft) :
    draft.solver.Consistent := by
  have takes := takes_of_nextDeferred next yields
  refine ⟨coherent_of_nextDeferred consistent.coherent next yields, ?_,
    tidy_of_nextDeferred next yields consistent.coherent consistent.exactly
    consistent.tidy⟩
  rw [takes.settings]
  exact consistent.exactly

theorem empty (id : SolverId) {settings : Settings ℚ}
    (exactly : settings.Exact) :
    (Solver.empty id settings).Consistent := by
  refine ⟨coherent_empty id settings, exactly, fun _ => .inl ?_⟩
  intro constraint impossible
  cases impossible

end Consistent

end Solver

end LiveLinear
