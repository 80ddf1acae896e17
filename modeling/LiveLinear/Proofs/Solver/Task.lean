import LiveLinear.Proofs.Solver.Writing

namespace LiveLinear

/-! # Tasks

The edits that operations carry out on a solver, gathered in one type, so that
what holds of all of them can be said once. Every task answers with the
variables that it has moved; one that moves nothing answers with none. -/

inductive Task (α : Type u) where
  | solve
  | addVariable (name : Option String) (value : Option α)
  | setValue (handle : VariableHandle) (value : Option α)
  | lock (handle : VariableHandle)
  | unlock (handle : VariableHandle)
  | deleteVariable (handle : VariableHandle)
  | observe (handle : VariableHandle) (hook : Option HookId)
  | forget (id : VariableId) (hook : Option HookId)
  | addConstraint (terms : List (Argument × Option α)) (total : Option α)
  | setTerm (handle : ConstraintHandle) (argument : Argument)
      (coefficient : Option α)
  | addTerm (handle : ConstraintHandle) (argument : Argument)
      (coefficient : Option α)
  | removeTerm (handle : ConstraintHandle) (argument : Argument)
  | setSum (handle : ConstraintHandle) (total : Option α)
  | deleteConstraint (handle : ConstraintHandle)
  | isOverConstrained
  | isUnderConstrained
  | freeVariables

def Edit.still {α β : Type} (edit : Edit α β) : Edit α (List VariableId) := do
  let _ ← edit
  return []

theorem Edit.yields_still {α β : Type} {edit : Edit α β}
    {before after : Draft α} {result : Except (Failure α) (List VariableId)} :
    edit.still.Yields before result after ↔
      ∃ outcome, edit.Yields before outcome after ∧
        result = outcome.map fun _ => [] :=
  Edit.yields_bind_pure

variable {α : Type} [Scalar α]

def Task.edit : Task α → Edit α (List VariableId)
  | .solve => Edit.writeSolution
  | .addVariable name value => (Edit.addVariable name value).still
  | .setValue handle value => Edit.setValue handle value
  | .lock handle => Edit.lock handle
  | .unlock handle => (Edit.unlock handle).still
  | .deleteVariable handle => (Edit.deleteVariable handle).still
  | .observe handle hook => (Edit.observe handle hook).still
  | .forget id hook => (Edit.forget id hook).still
  | .addConstraint terms total => do return (← Edit.addConstraint terms total).2
  | .setTerm handle argument coefficient =>
      Edit.setTerm handle argument coefficient
  | .addTerm handle argument coefficient =>
      Edit.addTerm handle argument coefficient
  | .removeTerm handle argument => Edit.removeTerm handle argument
  | .setSum handle total => Edit.setSum handle total
  | .deleteConstraint handle => (Edit.deleteConstraint handle).still
  | .isOverConstrained => Edit.isOverConstrained.still
  | .isUnderConstrained => Edit.isUnderConstrained.still
  | .freeVariables => Edit.freeVariables.still

theorem Task.yields_addConstraint {terms : List (Argument × Option α)}
    {total : Option α} {before after : Draft α}
    {result : Except (Failure α) (List VariableId)} :
    (Task.addConstraint terms total).edit.Yields before result after ↔
      ∃ outcome, (Edit.addConstraint terms total).Yields before outcome after ∧
        result = outcome.map Prod.snd :=
  Edit.yields_bind_pure

theorem Task.edit_addConstraint (terms : List (Argument × Option α))
    (total : Option α) :
    (Task.addConstraint terms total).edit = (do
      let sum ← Edit.ofOutcome (finite .constraintSum total)
      let terms ← Edit.check fun solver => Edit.checkTerms solver terms
      let id : ConstraintId := (← Edit.current).nextConstraint
      Edit.update fun solver =>
      solver.insertConstraint { terms, sum, origin := .stated }
      Edit.writeIfAuto.undoing fun solver =>
        { solver with constraints := solver.constraints.erase id }) := by
  simp only [Task.edit, Edit.addConstraint, bind_assoc, pure_bind, bind_pure]

end LiveLinear
