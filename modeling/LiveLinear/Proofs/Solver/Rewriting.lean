import LiveLinear.Proofs.Solver.Pieces

namespace LiveLinear

/-! # Editing a constraint

The tasks that add a constraint or change one take the same course: one entry of
the table of constraints is rewritten, and then the solver solves if it does
that by itself. -/

variable {α : Type}

/-- The constraint that a task adds or changes. -/
def Task.edited? (solver : Solver α) : Task α → Option ConstraintId
  | .addConstraint _ _ => some solver.nextConstraint
  | .setTerm handle _ _ | .addTerm handle _ _ | .removeTerm handle _
      | .setSum handle _ =>
      some handle.id
  | .solve | .addVariable _ _ | .setValue _ _ | .lock _ | .unlock _
      | .deleteVariable _ | .observe _ _ | .forget _ _ | .deleteConstraint _
      | .isOverConstrained | .isUnderConstrained | .freeVariables => none

/-- The same solver but for one constraint, which may be new. -/
structure Solver.Rewrites (before after : Solver α) (id : ConstraintId) :
    Prop where
  unknowns : after.unknowns = before.unknowns
  settings : after.settings = before.settings
  dispatching : after.dispatching = before.dispatching
  present : ∃ constraint, after.constraints.get? id = some constraint
  others : ∀ held ≠ id,
    after.constraints.get? held = before.constraints.get? held

variable [Scalar α] {before after : Draft α} {moved : List VariableId}

namespace Edit

/-- A change of a constraint that is there. -/
theorem modifyConstraint_rewrites {handle : ConstraintHandle}
    {former : Constraint α} {change : Constraint α → Constraint α}
    (coherent : before.solver.Coherent)
    (found : before.solver.constraintAt handle = .ok former)
    (keeps : ∀ constraint : Constraint α,
      constraint.Over before.solver.unknowns.keys →
      (change constraint).Over before.solver.unknowns.keys)
    (yields : (do
      update fun solver => solver.modifyConstraint handle.id change
      writeIfAuto).Yields before (.ok moved) after) :
    ∃ middle, before.solver.Rewrites middle handle.id ∧ middle.Coherent ∧
      writeIfAuto.Yields ⟨middle, before.notes⟩ (.ok moved) after := by
  refine ⟨before.solver.modifyConstraint handle.id change,
    ⟨rfl, rfl, rfl, ⟨change former, ?_⟩, ?_⟩,
    coherent.modifyConstraint handle.id keeps, yields_update_bind.mp yields⟩
  · rw [Solver.modifyConstraint, Table.get?_modify, if_pos rfl,
      Solver.get?_of_constraintAt found]
    rfl
  · intro held different
    rw [Solver.modifyConstraint, Table.get?_modify, if_neg different]

theorem addConstraint_rewrites {terms : List (Argument × Option α)}
    {total : Option α} (coherent : before.solver.Coherent)
    (yields : (Task.addConstraint terms total).edit.Yields before (.ok moved)
      after) :
    ∃ middle, before.solver.Rewrites middle before.solver.nextConstraint ∧
      middle.Coherent ∧
      writeIfAuto.Yields ⟨middle, before.notes⟩ (.ok moved) after := by
  rw [Task.edit_addConstraint] at yields
  simp only [yields_ofOutcome_bind_ok, yields_check_bind_ok,
    yields_current_bind, yields_update_bind, yields_undoing] at yields
  rcases yields with ⟨sum, _, stored, checked, last, written, rfl⟩
  refine ⟨before.solver.insertConstraint
    { terms := stored, sum, origin := .stated },
    ⟨rfl, rfl, rfl, ⟨_, Table.get?_put_self _ _ _⟩, ?_⟩,
    coherent.insertConstraint (checkTerms_over checked sum .stated), written⟩
  exact fun held different => Table.get?_put_of_ne different _

end Edit

open Edit in
/-- A task that edits a constraint rewrites it, and solves from there. -/
theorem Task.exists_rewrites {task : Task α} {id : ConstraintId}
    (edits : task.edited? before.solver = some id)
    (coherent : before.solver.Coherent)
    (yields : task.edit.Yields before (.ok moved) after) :
    ∃ middle, before.solver.Rewrites middle id ∧ middle.Coherent ∧
      writeIfAuto.Yields ⟨middle, before.notes⟩ (.ok moved) after := by
  cases task with
  | addConstraint terms total =>
      cases edits
      exact addConstraint_rewrites coherent yields
  | setTerm handle argument coefficient =>
      cases edits
      simp only [Task.edit, Edit.setTerm, yields_check_bind_ok,
        yields_ofOutcome_bind_ok] at yields
      rcases yields with ⟨_, found, number, _, id, checked, rest⟩
      have live := Solver.mem_keys_of_checkVariable checked
      exact modifyConstraint_rewrites coherent found
        (fun _ isOver => isOver.put live number) rest
  | addTerm handle argument coefficient =>
      cases edits
      simp only [Task.edit, Edit.addTerm, yields_check_bind_ok,
        yields_ofOutcome_bind_ok] at yields
      rcases yields with ⟨_, found, id, checked, number, _, rest⟩
      have live := Solver.mem_keys_of_checkVariable checked
      exact modifyConstraint_rewrites coherent found
        (fun _ isOver => isOver.put live _) rest
  | removeTerm handle argument =>
      cases edits
      simp only [Task.edit, Edit.removeTerm, yields_check_bind_ok] at yields
      rcases yields with ⟨_, found, id, _, rest⟩
      exact modifyConstraint_rewrites coherent found
        (fun _ isOver => isOver.erase id) rest
  | setSum handle total =>
      cases edits
      simp only [Task.edit, Edit.setSum, yields_check_bind_ok,
        yields_ofOutcome_bind_ok] at yields
      rcases yields with ⟨sum, _, _, found, rest⟩
      refine modifyConstraint_rewrites coherent found ?_ rest
      exact fun _ isOver => ⟨isOver.nodup, isOver.live⟩
  | solve | addVariable _ _ | setValue _ _ | lock _ | unlock _
      | deleteVariable _ | observe _ _ | forget _ _ | deleteConstraint _
      | isOverConstrained | isUnderConstrained | freeVariables =>
      cases edits

end LiveLinear
