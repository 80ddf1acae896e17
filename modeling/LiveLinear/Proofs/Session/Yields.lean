import LiveLinear.Proofs.Solver.Yields
import LiveLinear.Session.World

namespace LiveLinear

/-! # What an action yields

An action turns a world into a result and another world, or gives up. Here is
how the pieces that actions are made of take a world apart. -/

namespace World

variable {α : Type}

def record (world : World α) (event : Event α) : World α :=
  { world with history := event :: world.history }

def change (world : World α) (id : SolverId) (change : Solver α → Solver α) :
    World α :=
  { world with solvers := world.solvers.modify id change }

/-- Put a solver that has been edited in its place, and its notes into the
history. -/
def adopt (world : World α) (id : SolverId) (draft : Draft α) : World α :=
  { world with
    solvers := world.solvers.set id draft.solver
    history := draft.notes.map (.noted id) ++ world.history }

def addSolver (world : World α) (settings : Settings α) : World α :=
  { world with
    solvers := world.solvers ++ [.empty world.solvers.length settings] }

def addHook (world : World α) (tag : String) (body : Script α) : World α :=
  { world with hooks := world.hooks ++ [⟨tag, body⟩] }

end World

namespace Action

variable {α β γ : Type}

/-- Run from `before`, the action ends with `result` and leaves `after`. -/
def Yields (action : Action α β) (before : World α)
    (result : Except (Failure α) β) (after : World α) : Prop :=
  action.run.run before = some (result, after)

variable {before after : World α}

theorem yields_exhausted {result : Except (Failure α) β} :
    ¬(exhausted : Action α β).Yields before result after := by
  intro yields
  cases yields

@[simp] theorem yields_pure {value : β} {result : Except (Failure α) β} :
    (pure value : Action α β).Yields before result after ↔
      result = .ok value ∧ after = before := by
  constructor
  · intro yields
    cases yields
    exact ⟨rfl, rfl⟩
  · rintro ⟨rfl, rfl⟩
    rfl

@[simp] theorem yields_throw {failure : Failure α}
    {result : Except (Failure α) β} :
    (throw failure : Action α β).Yields before result after ↔
      result = .error failure ∧ after = before := by
  constructor
  · intro yields
    cases yields
    exact ⟨rfl, rfl⟩
  · rintro ⟨rfl, rfl⟩
    rfl

theorem run_bind (action : Action α β) (next : β → Action α γ)
    (before : World α) :
    (action >>= next).run.run before =
      match action.run.run before with
      | some (.ok value, middle) => (next value).run.run middle
      | some (.error failure, middle) => some (.error failure, middle)
      | none => none := by
  unfold ExceptT.run StateT.run
  simp only [bind, ExceptT.bind, ExceptT.mk, StateT.bind]
  rcases action before with _ | ⟨outcome, middle⟩
  · rfl
  · cases outcome <;> rfl

/-- A sequence fails with its first part, or goes on from what that left. -/
theorem yields_bind {action : Action α β} {next : β → Action α γ}
    {result : Except (Failure α) γ} :
    (action >>= next).Yields before result after ↔
      (∃ failure, action.Yields before (.error failure) after ∧
        result = .error failure) ∨ ∃ value middle,
      action.Yields before (.ok value) middle ∧
          (next value).Yields middle result after := by
  simp only [Yields, run_bind]
  rcases action.run.run before with _ | ⟨outcome, middle⟩
  · simp
  · cases outcome with
    | error failure =>
        constructor
        · intro equal
          cases equal
          exact .inl ⟨failure, rfl, rfl⟩
        · rintro (⟨_, equal, rfl⟩ | ⟨_, _, impossible, _⟩)
          · cases equal
            rfl
          · cases impossible
    | ok value =>
        constructor
        · intro equal
          exact .inr ⟨value, middle, rfl, equal⟩
        · rintro (⟨_, impossible, _⟩ | ⟨_, _, equal, later⟩)
          · cases impossible
          · cases equal
            exact later

theorem yields_bind_ok {action : Action α β} {next : β → Action α γ}
    {value : γ} :
    (action >>= next).Yields before (.ok value) after ↔
      ∃ first middle, action.Yields before (.ok first) middle ∧
        (next first).Yields middle (.ok value) after := by
  simp [yields_bind]

theorem yields_bind_of_ok {action : Action α β} {next : β → Action α γ}
    {result : Except (Failure α) γ} {value : β} {middle : World α}
    (first : action.Yields before (.ok value) middle) :
    (action >>= next).Yields before result after ↔
    (next value).Yields middle result after := by
  rw [Yields, run_bind, first]
  rfl

theorem Yields.unique {action : Action α β}
    {result other : Except (Failure α) β} {final : World α}
    (yields : action.Yields before result after)
    (again : action.Yields before other final) : other = result ∧
    final = after := by
  have same := Option.some.inj (again.symm.trans yields)
  exact ⟨congrArg Prod.fst same, congrArg Prod.snd same⟩

@[simp] theorem yields_pure_bind {value : β} {next : β → Action α γ}
    {result : Except (Failure α) γ} :
    (pure value >>= next).Yields before result after ↔
      (next value).Yields before result after :=
  Iff.rfl

@[simp] theorem yields_get {result : Except (Failure α) (World α)} :
    (get : Action α (World α)).Yields before result after ↔
      result = .ok before ∧ after = before := by
  constructor
  · intro yields
    cases yields
    exact ⟨rfl, rfl⟩
  · rintro ⟨rfl, rfl⟩
    rfl

@[simp] theorem yields_get_bind {next : World α → Action α γ}
    {result : Except (Failure α) γ} :
    (get >>= next).Yields before result after ↔
      (next before).Yields before result after :=
  Iff.rfl

@[simp] theorem yields_record {event : Event α}
    {result : Except (Failure α) Unit} :
    (record event).Yields before result after ↔
      result = .ok () ∧ after = before.record event := by
  constructor
  · intro yields
    cases yields
    exact ⟨rfl, rfl⟩
  · rintro ⟨rfl, rfl⟩
    rfl

@[simp] theorem yields_record_bind {event : Event α} {next : Unit → Action α γ}
    {result : Except (Failure α) γ} :
    (record event >>= next).Yields before result after ↔
      (next ()).Yields (before.record event) result after :=
  Iff.rfl

@[simp] theorem yields_update {id : SolverId} {change : Solver α → Solver α}
    {result : Except (Failure α) Unit} :
    (update id change).Yields before result after ↔
      result = .ok () ∧ after = before.change id change := by
  constructor
  · intro yields
    cases yields
    exact ⟨rfl, rfl⟩
  · rintro ⟨rfl, rfl⟩
    rfl

@[simp] theorem yields_update_bind {id : SolverId}
    {change : Solver α → Solver α} {next : Unit → Action α γ}
    {result : Except (Failure α) γ} :
    (update id change >>= next).Yields before result after ↔
      (next ()).Yields (before.change id change) result after :=
  Iff.rfl

@[simp] theorem yields_relabel {change : Labels α → Labels α}
    {result : Except (Failure α) Unit} :
    (relabel change).Yields before result after ↔
      result = .ok () ∧
      after = { before with labels := change before.labels } := by
  constructor
  · intro yields
    cases yields
    exact ⟨rfl, rfl⟩
  · rintro ⟨rfl, rfl⟩
    rfl

@[simp] theorem yields_ofOutcome {outcome result : Except (Failure α) β} :
    (ofOutcome outcome).Yields before result after ↔
      result = outcome ∧ after = before := by
  cases outcome <;> simp [ofOutcome]

@[simp] theorem yields_outcome {action : Action α β}
    {result : Except (Failure α) (Except (Failure α) β)} :
    action.outcome.Yields before result after ↔
      ∃ outcome, action.Yields before outcome after ∧ result = .ok outcome := by
  have unfolded : action.outcome.run.run before =
      (action.run.run before).map fun (outcome, after) =>
      (.ok outcome, after) := by
    simp only [outcome, ExceptT.run, ExceptT.mk, StateT.run, bind, StateT.bind]
    rcases action before with _ | ⟨outcome, middle⟩ <;> rfl
  rw [Yields, unfolded]
  constructor
  · intro equal
    rcases Option.map_eq_some_iff.mp equal with
      ⟨⟨outcome, middle⟩, yields, pair⟩
    cases pair
    exact ⟨_, yields, rfl⟩
  · rintro ⟨outcome, yields, rfl⟩
    exact Option.map_eq_some_iff.mpr ⟨(outcome, after), yields, rfl⟩

theorem yields_outcome_bind {action : Action α β}
    {next : Except (Failure α) β → Action α γ} {result : Except (Failure α) γ} :
    (action.outcome >>= next).Yields before result after ↔
      ∃ outcome middle, action.Yields before outcome middle ∧
        (next outcome).Yields middle result after := by
  simp only [yields_bind, yields_outcome]
  constructor
  · rintro (⟨_, ⟨_, _, impossible⟩, _⟩
      | ⟨ended, middle, ⟨_, yields, equal⟩, later⟩)
    · cases impossible
    · cases equal
      exact ⟨ended, middle, yields, later⟩
  · rintro ⟨outcome, middle, yields, later⟩
    exact .inr ⟨outcome, middle, ⟨outcome, yields, rfl⟩, later⟩

@[simp] theorem yields_addSolver {settings : Settings α}
    {result : Except (Failure α) SolverId} :
    (addSolver settings).Yields before result after ↔
      result = .ok before.solvers.length ∧
      after = before.addSolver settings := by
  constructor
  · intro yields
    cases yields
    exact ⟨rfl, rfl⟩
  · rintro ⟨rfl, rfl⟩
    rfl

@[simp] theorem yields_addSolver_bind {settings : Settings α}
    {next : SolverId → Action α γ} {result : Except (Failure α) γ} :
    (addSolver settings >>= next).Yields before result after ↔
      (next before.solvers.length).Yields (before.addSolver settings) result
        after :=
  Iff.rfl

@[simp] theorem yields_addHook {tag : String} {body : Script α}
    {result : Except (Failure α) HookId} :
    (addHook tag body).Yields before result after ↔
      result = .ok before.hooks.length ∧ after = before.addHook tag body := by
  constructor
  · intro yields
    cases yields
    exact ⟨rfl, rfl⟩
  · rintro ⟨rfl, rfl⟩
    rfl

@[simp] theorem yields_addHook_bind {tag : String} {body : Script α}
    {next : HookId → Action α γ} {result : Except (Failure α) γ} :
    (addHook tag body >>= next).Yields before result after ↔
      (next before.hooks.length).Yields (before.addHook tag body) result
        after :=
  Iff.rfl

theorem yields_lookUp {table : Labels α → Table String β} {label : String}
    {value : β} (bound : (table before.labels).get? label = some value) :
    (lookUp table label).Yields before (.ok value) before := by
  rw [lookUp, yields_get_bind, bound]
  exact yields_pure.mpr ⟨rfl, rfl⟩

theorem bound_of_lookUp {table : Labels α → Table String β} {label : String}
    {value : β}
    (yields : (lookUp table label).Yields before (.ok value) after) :
    (table before.labels).get? label = some value := by
  rw [lookUp, yields_get_bind] at yields
  split at yields
  · next bound =>
      cases (yields_pure.mp yields).1
      exact bound
  · cases (yields_throw.mp yields).1

theorem yields_lookUp_bind {table : Labels α → Table String β} {label : String}
    {value : β} {next : β → Action α γ} {result : Except (Failure α) γ}
    (bound : (table before.labels).get? label = some value) :
    (lookUp table label >>= next).Yields before result after ↔
      (next value).Yields before result after :=
  yields_bind_of_ok (yields_lookUp bound)

/-! ## Solvers -/

theorem yields_solver_bind {id : SolverId} {next : Solver α → Action α γ}
    {result : Except (Failure α) γ} :
    (solver id >>= next).Yields before result after ↔
      (before.solvers[id]? = none ∧ result = .error (.unknownSolver id) ∧
        after = before) ∨ ∃ solver, before.solvers[id]? = some solver ∧
          (next solver).Yields before result after := by
  rw [Action.solver, bind_assoc, yields_get_bind]
  cases before.solvers[id]? with
  | none => simp
  | some present => simp

theorem yields_solver_bind_of_some {id : SolverId} {solver : Solver α}
    {next : Solver α → Action α γ} {result : Except (Failure α) γ}
    (found : before.solvers[id]? = some solver)
    (yields : (Action.solver id >>= next).Yields before result after) :
    (next solver).Yields before result after := by
  rcases yields_solver_bind.mp yields with
    ⟨lost, _⟩ | ⟨present, isPresent, rest⟩
  · rw [found] at lost
    cases lost
  · rw [found] at isPresent
    cases isPresent
    exact rest

theorem yields_consult_of_ok {id : SolverId} {solver : Solver α}
    {question : Solver α → Except (Failure α) β} {answer : β}
    (found : before.solvers[id]? = some solver)
    (answered : question solver = .ok answer) :
    (consult id question).Yields before (.ok answer) before := by
  rw [consult, yields_solver_bind]
  exact .inr ⟨solver, found, yields_ofOutcome.mpr ⟨answered.symm, rfl⟩⟩

theorem yields_edit {id : SolverId} {edit : Edit α β}
    {result : Except (Failure α) β} :
    (Action.edit id edit).Yields before result after ↔
      (before.solvers[id]? = none ∧ result = .error (.unknownSolver id) ∧
        after = before) ∨ ∃ solver draft, before.solvers[id]? = some solver ∧
          edit.Yields ⟨solver, []⟩ result draft ∧
          after = before.adopt id draft := by
  rw [Action.edit, yields_solver_bind]
  apply or_congr Iff.rfl
  constructor
  · rintro ⟨solver, present, yields⟩
    rcases yields_ofOutcome.mp yields with ⟨rfl, rfl⟩
    exact ⟨solver, _, present, Edit.yields_run edit _, rfl⟩
  · rintro ⟨solver, draft, present, yields, rfl⟩
    refine ⟨solver, present, ?_⟩
    rw [Edit.Yields] at yields
    simp only [yields]
    exact yields_ofOutcome.mpr ⟨rfl, rfl⟩

theorem edit_of_yields {id : SolverId} {edit : Edit α β} {solver : Solver α}
    {draft : Draft α} {result : Except (Failure α) β}
    (found : before.solvers[id]? = some solver)
    (yields : edit.Yields ⟨solver, []⟩ result draft) :
    (Action.edit id edit).Yields before result (before.adopt id draft) :=
  yields_edit.mpr (.inr ⟨solver, draft, found, yields, rfl⟩)

/-! ## Actions that succeed -/

def done? (action : Action α β) (before : World α) : Option (β × World α) :=
  match action.run.run before with
  | some (.ok value, after) => some (value, after)
  | some (.error _, _) | none => none

theorem done?_of_yields {action : Action α β} {value : β}
    (yields : action.Yields before (.ok value) after) :
    action.done? before = some (value, after) := by
  rw [done?, yields]

theorem yields_of_done? {action : Action α β} {value : β}
    (done : action.done? before = some (value, after)) :
    action.Yields before (.ok value) after := by
  unfold done? at done
  split at done
  · next yields =>
      cases done
      exact yields
  · cases done
  · cases done

end Action

end LiveLinear
