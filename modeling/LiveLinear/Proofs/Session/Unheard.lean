import LiveLinear.Proofs.Session.Reached

namespace LiveLinear

/-! # Edits that nobody hears of

Where no variable has a hook, announcing what has moved leaves traces in the
history only. -/

/-- No hook is registered with any variable. -/
def Solver.Unheard (solver : Solver α) : Prop :=
  ∀ contents ∈ solver.unknowns.values, contents.hook = none

namespace World

variable {α : Type} {world : World α} {id : SolverId} {solver : Solver α}

theorem change_change (world : World α) (id : SolverId)
    (first second : Solver α → Solver α) :
    (world.change id first).change id second =
      world.change id fun solver => second (first solver) := by
  simp only [change, List.modify_modify_eq]
  rfl

theorem change_eq_self {change : Solver α → Solver α}
    (found : world.solvers[id]? = some solver) (same : change solver = solver) :
    world.change id change = world := by
  have solvers : world.solvers.modify id change = world.solvers := by
    apply List.ext_getElem?
    intro other
    rw [List.getElem?_modify]
    by_cases equal : id = other
    · subst other
      simp [found, same]
    · simp [equal]
  simp only [World.change, solvers]

def heard (world : World α) (id : SolverId) (moved : List VariableId) :
    World α :=
  if moved.isEmpty then world
  else (world.record (.roundBegan id moved)).record (.roundEnded id)

@[simp] theorem solvers_heard (world : World α) (id : SolverId)
    (moved : List VariableId) :
    (world.heard id moved).solvers = world.solvers := by
  unfold heard
  split <;> rfl

@[simp] theorem labels_heard (world : World α) (id : SolverId)
    (moved : List VariableId) :
    (world.heard id moved).labels = world.labels := by
  unfold heard
  split <;> rfl

theorem history_heard (world : World α) (id : SolverId)
    (moved : List VariableId) :
    ∃ rounds : List (Event α),
      (world.heard id moved).history = rounds ++ world.history ∧ ∀ other note,
        .noted other note ∉ rounds := by
  unfold heard
  split
  · exact ⟨[], rfl, by simp⟩
  · exact ⟨[.roundEnded id, .roundBegan id moved], rfl, by simp⟩

end World

namespace Action

variable {α : Type} {engine : Engine α} {before after : World α} {id : SolverId}
  {solver : Solver α} {moved targets : List VariableId}

section Rounds

theorem notify_of_unheard (found : before.solvers[id]? = some solver)
    (unheard : solver.Unheard) (target : VariableId) :
    (notify engine id target).Yields before (.ok ()) before := by
  rw [notify, yields_solver_bind]
  refine .inr ⟨solver, found, ?_⟩
  split
  · next present =>
      cases unheard _ (Table.mem_values_of_get? present)
  · exact yields_pure.mpr ⟨rfl, rfl⟩

theorem notifyAll_of_unheard (found : before.solvers[id]? = some solver)
    (unheard : solver.Unheard) (targets : List VariableId) :
    (notifyAll engine id targets).Yields before (.ok ()) before := by
  induction targets with
  | nil => exact yields_pure.mpr ⟨rfl, rfl⟩
  | cons target rest induction =>
      exact yields_bind.mpr
        (.inr ⟨(), before, notify_of_unheard found unheard target, induction⟩)

theorem round_of_unheard (found : before.solvers[id]? = some solver)
    (unheard : solver.Unheard) (idle : solver.dispatching = false) :
    (round engine id targets).Yields before (.ok ())
      (before.heard id targets) := by
  unfold round World.heard
  split
  · exact yields_pure.mpr ⟨rfl, rfl⟩
  · have recorded : (before.record (.roundBegan id targets)).solvers[id]? =
      some solver := found
    have called := World.getElem?_change_self
      (fun solver : Solver α => { solver with dispatching := true }) recorded
    simp only [yields_record_bind, yields_update_bind, yields_outcome_bind]
    refine ⟨.ok (), _, notifyAll_of_unheard called unheard targets, ?_⟩
    simp only [yields_update_bind, yields_record_bind, yields_ofOutcome,
      true_and]
    rw [World.change_change, World.change_eq_self recorded]
    rw [← idle]

end Rounds

variable [Scalar α] {result : Ending α}

/-- Where nothing has been put off, one look tells, for which patience is
needed. -/
theorem settle_of_quiet (found : before.solvers[id]? = some solver)
    (quiet : solver.Quiet) (patient : 0 < engine.patience) :
    (settle engine id).Yields before (.ok ()) before := by
  rcases quiet with ⟨_, notDraining, notPending, empty⟩
  have draining := World.getElem?_change_self
    (fun solver : Solver α => { solver with draining := true }) found
  rw [settle, yields_solver_bind]
  refine .inr ⟨solver, found, ?_⟩
  simp only [notDraining, Bool.false_eq_true, if_false, yields_update_bind,
    yields_outcome_bind]
  refine ⟨.ok (), before.change id fun solver =>
    { solver with draining := true }, ?_, ?_⟩
  · rcases Nat.exists_eq_succ_of_ne_zero patient.ne' with ⟨patience, isPatience⟩
    rw [isPatience, drain, yields_solver_bind]
    refine .inr ⟨_, draining, ?_⟩
    simp only [empty, notPending, List.isEmpty_nil, Bool.not_false,
      Bool.and_self, if_true, yields_pure, and_self]
  · simp only [yields_update_bind, yields_ofOutcome, true_and]
    rw [World.change_change, World.change_eq_self found]
    rw [← notDraining]

theorem patient_of_settle (found : before.solvers[id]? = some solver)
    (quiet : solver.Quiet)
    (yields : (settle engine id).Yields before result after) :
    0 < engine.patience := by
  have rest := yields_solver_bind_of_some found yields
  simp only [quiet.draining, Bool.false_eq_true, if_false, yields_update_bind,
    yields_outcome_bind] at rest
  rcases rest with ⟨_, _, drains, _⟩
  rw [Nat.pos_iff_ne_zero]
  intro impatient
  rw [impatient] at drains
  exact yields_exhausted drains

theorem announce_of_unheard (found : before.solvers[id]? = some solver)
    (unheard : solver.Unheard) (quiet : solver.Quiet)
    (patient : moved = [] ∨ 0 < engine.patience) :
    (announce engine id moved).Yields before (.ok ())
      (before.heard id moved) := by
  unfold announce
  split
  · next empty =>
      rw [World.heard, if_pos empty]
      exact yields_pure.mpr ⟨rfl, rfl⟩
  · next nonempty =>
      have still : (before.heard id moved).solvers[id]? = some solver := by
        rw [World.solvers_heard]
        exact found
      have patience := patient.resolve_left fun empty =>
        nonempty (List.isEmpty_iff.mpr empty)
      rw [yields_bind_of_ok (round_of_unheard found unheard quiet.dispatching)]
      exact settle_of_quiet still quiet patience

theorem perform_of_failing (engine : Engine α)
    (found : before.solvers[id]? = some solver)
    {change : Edit α (List VariableId)} {failure : Failure α} {draft : Draft α}
    (fails : change.Yields ⟨solver, []⟩ (.error failure) draft) :
    (perform engine id change).Yields before (.error failure)
      (before.adopt id draft) :=
  yields_bind.mpr (.inl ⟨failure, edit_of_yields found fails, rfl⟩)

theorem patient_of_announce (found : before.solvers[id]? = some solver)
    (unheard : solver.Unheard) (quiet : solver.Quiet)
    (yields : (announce engine id moved).Yields before result after) :
    moved = [] ∨ 0 < engine.patience := by
  unfold announce at yields
  split at yields
  · next empty => exact .inl (List.isEmpty_iff.mp empty)
  · have still : (before.heard id moved).solvers[id]? = some solver := by
      rw [World.solvers_heard]
      exact found
    rw [yields_bind_of_ok (round_of_unheard found unheard quiet.dispatching)]
      at yields
    exact .inr (patient_of_settle still quiet yields)

theorem perform_of_unheard (found : before.solvers[id]? = some solver)
    {change : Edit α (List VariableId)} {draft : Draft α}
    (done : change.Yields ⟨solver, []⟩ (.ok moved) draft)
    (unheard : draft.solver.Unheard) (quiet : draft.solver.Quiet)
    (patient : moved = [] ∨ 0 < engine.patience) :
    (perform engine id change).Yields before (.ok ())
      ((before.adopt id draft).heard id moved) := by
  have adopted := World.getElem?_adopt_self draft found
  rw [perform, yields_bind_of_ok (edit_of_yields found done)]
  exact announce_of_unheard adopted unheard quiet patient

/-- What is carried out where nobody listens is an edit. -/
theorem perform_cases_of_unheard (found : before.solvers[id]? = some solver)
    {change : Edit α (List VariableId)}
    (unheard : ∀ moved draft, change.Yields ⟨solver, []⟩ (.ok moved) draft →
      draft.solver.Unheard ∧ draft.solver.Quiet)
    (yields : (perform engine id change).Yields before result after) :
    (∃ failure draft, change.Yields ⟨solver, []⟩ (.error failure) draft ∧
        result = .error failure ∧ after = before.adopt id draft) ∨
      ∃ moved draft, change.Yields ⟨solver, []⟩ (.ok moved) draft ∧
        result = .ok () ∧ after = (before.adopt id draft).heard id moved := by
  rcases run : change.run ⟨solver, []⟩ with ⟨outcome, draft⟩
  cases outcome with
  | error failure =>
      have performed := perform_of_failing engine found run
      exact .inl ⟨failure, draft, run, performed.unique yields⟩
  | ok moved =>
      rcases unheard moved draft run with ⟨unheardAfter, quiet⟩
      have adopted := World.getElem?_adopt_self draft found
      have announced := yields
      rw [perform, yields_bind_of_ok (edit_of_yields found run)] at announced
      have patient := patient_of_announce adopted unheardAfter quiet announced
      have performed := perform_of_unheard found run unheardAfter quiet patient
      exact .inr ⟨moved, draft, run, performed.unique yields⟩

end Action

end LiveLinear
