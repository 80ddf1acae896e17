import LiveLinear.Proofs.Solver.Pieces

namespace LiveLinear

/-! # Upkeep

Every change keeps a solver coherent, and so does every task, however it
ends. -/

variable {α : Type}

namespace Solver

variable {solver before after : Solver α}

theorem Coherent.of_sameContents (coherent : before.Coherent)
    (same : before.SameContents after) : after.Coherent := by
  rw [Coherent, same.unknowns, same.constraints, same.nextVariable,
    same.nextConstraint]
  exact coherent

theorem Changes.coherent (changes : before.Changes after)
    (coherent : before.Coherent) :
    after.Coherent := by
  cases changes with
  | marked same => exact coherent.of_sameContents same
  | insertVariable name value => exact coherent.insertVariable name value
  | modifyVariable id change _ => exact coherent.modifyVariable id change
  | eraseVariable id => exact coherent.eraseVariable id
  | insertConstraint isOver _ => exact coherent.insertConstraint isOver
  | modifyConstraint id change keepsOver _ =>
      exact coherent.modifyConstraint id keepsOver
  | dropConstraint _ => exact coherent.eraseConstraints _
  | eraseConstraint id => exact coherent.eraseConstraint id
  | pin _ => exact coherent.pin _
  | release id => exact coherent.release id
  | storePoint target => exact coherent.storePoint target

theorem Evolves.coherent (evolves : before.Evolves after)
    (coherent : before.Coherent) :
    after.Coherent := by
  induction evolves with
  | refl => exact coherent
  | tail _ changes induction => exact changes.coherent induction

theorem coherent_of_nextDeferred [Scalar α] {draft : Draft α}
    {work : Edit α (List VariableId)}
    {result : Except (Failure α) (List VariableId)} (coherent : solver.Coherent)
    (next : solver.nextDeferred = some work)
    (yields : work.Yields ⟨solver, []⟩ result draft) : draft.solver.Coherent :=
  (evolves_of_nextDeferred next yields).coherent coherent

end Solver

def Draft.Coheres (before after : Draft α) : Prop :=
  before.solver.Coherent → after.solver.Coherent

theorem Edit.writeIfAuto_coheres [Scalar α] :
    Edit.Keeps Draft.Coheres (Edit.writeIfAuto : Edit α _) :=
  fun _ _ _ yields coherent =>
    (writeIfAuto_evolves _ _ _ yields).coherent coherent

theorem Task.edit_coheres [Scalar α] (task : Task α) :
    Edit.Keeps Draft.Coheres task.edit :=
  fun _ _ _ yields coherent =>
    (task.edit_evolves _ _ _ yields).coherent coherent

end LiveLinear
