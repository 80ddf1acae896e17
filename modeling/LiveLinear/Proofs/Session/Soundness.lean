import LiveLinear.Proofs.Session.Aside
import LiveLinear.Session.Play

namespace LiveLinear

/-! # Carrying out commands follows the rules

Whatever an engine lets commands do, the relation between activities and worlds
has a derivation for it. -/

open Activity (Calls RunsWith)

variable {α : Type}

/-- Take up an item of deferred work, and call the hooks of what it moves. -/
def Action.serve (engine : Engine α) (id : SolverId)
    (work : Edit α (List VariableId)) :
    Action α Unit := do
  round engine id (← edit id work)

theorem Action.serve_cases {engine : Engine α} {before after : World α}
    {id : SolverId} {work : Edit α (List VariableId)} {solver : Solver α}
    {result : Ending α} (found : before.solvers[id]? = some solver)
    (yields : (serve engine id work).Yields before result after) :
    (∃ failure draft, work.Yields ⟨solver, []⟩ (.error failure) draft ∧
        result = .error failure ∧ after = before.adopt id draft) ∨
      ∃ moved draft, work.Yields ⟨solver, []⟩ (.ok moved) draft ∧
        (round engine id moved).Yields (before.adopt id draft) result
          after := by
  rcases yields_bind.mp yields with ⟨failure, failed, rfl⟩
    | ⟨moved, middle, done, later⟩
  · rcases yields_edit.mp failed with
      ⟨lost, _⟩ | ⟨same, draft, present, edited, rfl⟩
    · rw [found] at lost
      cases lost
    · rw [found] at present
      cases present
      exact .inl ⟨failure, draft, edited, rfl, rfl⟩
  · rcases yields_edit.mp done with
      ⟨lost, _⟩ | ⟨same, draft, present, edited, rfl⟩
    · rw [found] at lost
      cases lost
    · rw [found] at present
      cases present
      exact .inr ⟨moved, draft, edited, later⟩

/-- A round calls hooks between its beginning and its end. -/
theorem Action.round_cases {engine : Engine α} {before after : World α}
    {id : SolverId} {targets : List VariableId} {result : Ending α}
    (yields : (round engine id targets).Yields before result after) :
    (targets = [] ∧ result = .ok () ∧ after = before) ∨
      targets ≠ [] ∧ ∃ middle, (notifyAll engine id targets).Yields
          ((before.record (.roundBegan id targets)).change id fun solver =>
            { solver with dispatching := true }) result middle ∧
        ((result = .ok () ∧ after = (middle.change id fun solver =>
            { solver with dispatching := false }).record (.roundEnded id)) ∨
          ∃ failure, result = .error failure ∧
              after = (middle.change id fun solver =>
            { solver.dropDeferred with dispatching := false }).record
              (.roundEnded id)) := by
  unfold round at yields
  cases targets with
  | nil =>
      rcases yields_pure.mp yields with ⟨rfl, rfl⟩
      exact .inl ⟨rfl, rfl, rfl⟩
  | cons target rest =>
      simp only [List.isEmpty_cons, Bool.false_eq_true, if_false,
        yields_record_bind, yields_update_bind, yields_outcome_bind] at yields
      rcases yields with ⟨outcome, middle, calls, closing⟩
      refine .inr ⟨List.cons_ne_nil _ _, middle, ?_⟩
      cases outcome with
      | ok value =>
          simp only [yields_update_bind, yields_record_bind, yields_ofOutcome]
            at closing
          rcases closing with ⟨rfl, rfl⟩
          exact ⟨calls, .inl ⟨rfl, rfl⟩⟩
      | error failure =>
          simp only [yields_update_bind, yields_record_bind, yields_ofOutcome]
            at closing
          rcases closing with ⟨rfl, rfl⟩
          exact ⟨calls, .inr ⟨failure, rfl, rfl⟩⟩

/-- The turn of one variable: nobody listens to it, or its hook is called, and
returns. -/
theorem Action.notify_turn {engine : Engine α} {before after : World α}
    {id : SolverId} {target : VariableId} {result : Ending α}
    (yields : (notify engine id target).Yields before result after) :
    (before.solvers[id]? = none ∧ result = .error (.unknownSolver id) ∧
      after = before) ∨ ∃ solver, before.solvers[id]? = some solver ∧
        ((before.listener solver target = none ∧ result = .ok () ∧
          after = before) ∨ ∃ hook value,
        before.listener solver target = some (hook, value) ∧
            ((∃ failure, result = .error failure ∧
                (engine.call hook.body value).Yields
                  (before.record (.hookCalled id target hook.tag value))
                  (.error failure) after) ∨
              ∃ middle, result = .ok () ∧
                after = middle.record (.hookReturned id target) ∧
                (engine.call hook.body value).Yields
                  (before.record (.hookCalled id target hook.tag value))
                  (.ok ()) middle)) := by
  rcases yields_solver_bind.mp yields with lost | ⟨solver, found, rest⟩
  · exact .inl lost
  · refine .inr ⟨solver, found, ?_⟩
    have silent : before.listener solver target = none →
        (pure () : Action α Unit).Yields before result after →
        before.listener solver target = none ∧ result = .ok () ∧
        after = before :=
      fun nobody yields => ⟨nobody, yields_pure.mp yields⟩
    unfold World.listener at silent ⊢
    rcases present : solver.unknowns.get? target with
      _ | ⟨name, value, lock, _ | hook⟩
    · simp only [present] at rest silent
      exact .inl (silent rfl rest)
    · simp only [present] at rest silent
      exact .inl (silent rfl rest)
    · simp only [present, yields_get_bind] at rest
      rcases known : before.hooks[hook]? with _ | ⟨tag, body⟩
      · simp only [present, known] at rest silent
        exact .inl (silent (by simp [known]) rest)
      · simp only [known, yields_record_bind] at rest
        refine .inr ⟨⟨tag, body⟩, value, by simp [known], ?_⟩
        rcases yields_bind.mp rest with ⟨failure, failed, isResult⟩
          | ⟨_, middle, done, last⟩
        · exact .inl ⟨failure, isResult, failed⟩
        · rcases yields_record.mp last with ⟨isResult, isAfter⟩
          exact .inr ⟨middle, isResult, isAfter, done⟩

def Command.binds : Command α → Bool
  | .operation (.newSolver ..) | .operation (.addVariable ..) | .operation
      (.variableHandle ..)
  | .observe .. | .observeInline .. => true
  | _ => false

variable [Scalar α]

def Engine.SoundWith (known : Calls α) (engine : Engine α) : Prop :=
  ∀ body value before result after,
    (engine.call body value).Yields before result after →
      known body value before result after ∧
        RunsWith known (.script (some value) body) before result after

abbrev Engine.Sound (engine : Engine α) : Prop :=
  engine.SoundWith fun _ _ _ _ _ => True

namespace Action

variable {β γ : Type} {known : Calls α} {engine : Engine α}
  {before after : World α}

/-- Deferred work is processed item by item. -/
theorem drain_succ (engine : Engine α) (id : SolverId) (taken patience : Nat) :
    drain engine id taken (patience + 1) = (do
      let solver ← solver id
      match solver.nextDeferred with
      | none => return
      | some work =>
          if solver.settings.cascadeLimit < taken + 1 then
            throw (.cascade solver.settings.cascadeLimit)
          serve engine id work
          drain engine id (taken + 1) patience) := by
  rw [drain]
  congr 1
  funext solver
  rcases queue : solver.deferred with _ | ⟨⟨target, value⟩, rest⟩
  · cases pending : solver.resolvePending with
    | false => simp [Solver.nextDeferred, queue, pending]
    | true =>
        simp only [Solver.nextDeferred_of_pending queue pending]
        simp [serve, Edit.takeSolve]
  · simp only [Solver.nextDeferred_of_queued queue]
    simp [serve, Edit.takeValue]

/-- Deferred work is processed between two marks, unless it is being processed
already. -/
theorem settle_cases {id : SolverId} {result : Ending α}
    (yields : (settle engine id).Yields before result after) :
    (before.solvers[id]? = none ∧ result = .error (.unknownSolver id) ∧
      after = before) ∨ ∃ solver, before.solvers[id]? = some solver ∧
        ((solver.draining = true ∧ result = .ok () ∧ after = before) ∨
          solver.draining = false ∧ ∃ last,
              (drain engine id 0 engine.patience).Yields
                (before.change id fun solver =>
                  { solver with draining := true }) result last ∧
            ((result = .ok () ∧ after = last.change id fun solver =>
                { solver with draining := false }) ∨
              ∃ failure, result = .error failure ∧
                  after = last.change id fun solver =>
                { solver.dropDeferred with draining := false })) := by
  rcases yields_solver_bind.mp yields with lost | ⟨solver, found, rest⟩
  · exact .inl lost
  · refine .inr ⟨solver, found, ?_⟩
    split at rest
    · next draining => exact .inl ⟨draining, yields_pure.mp rest⟩
    · next idle =>
        simp only [yields_update_bind, yields_outcome_bind] at rest
        rcases rest with ⟨outcome, last, drains, closing⟩
        refine .inr ⟨by simpa using idle, last, ?_⟩
        cases outcome with
        | ok value =>
            simp only [yields_update_bind, yields_ofOutcome] at closing
            rcases closing with ⟨rfl, rfl⟩
            exact ⟨drains, .inl ⟨rfl, rfl⟩⟩
        | error failure =>
            simp only [yields_update_bind, yields_ofOutcome] at closing
            rcases closing with ⟨rfl, rfl⟩
            exact ⟨drains, .inr ⟨failure, rfl, rfl⟩⟩

section Dispatch

variable (sound : engine.SoundWith known)
include sound

theorem notify_cases {id : SolverId} {target : VariableId} {result : Ending α}
    (yields : (notify engine id target).Yields before result after) :
    (before.solvers[id]? = none ∧ result = .error (.unknownSolver id) ∧
      after = before) ∨ ∃ solver, before.solvers[id]? = some solver ∧
        ((before.listener solver target = none ∧ result = .ok () ∧
          after = before) ∨ ∃ hook value,
        before.listener solver target = some (hook, value) ∧
            ((∃ failure, result = .error failure ∧
                known hook.body value
                  (before.record (.hookCalled id target hook.tag value))
                    (.error failure) after ∧
                RunsWith known (.script (some value) hook.body)
                  (before.record (.hookCalled id target hook.tag value))
                  (.error failure) after) ∨
              ∃ middle, result = .ok () ∧
                after = middle.record (.hookReturned id target) ∧
                known hook.body value
                  (before.record (.hookCalled id target hook.tag value))
                    (.ok ()) middle ∧
                RunsWith known (.script (some value) hook.body)
                  (before.record (.hookCalled id target hook.tag value))
                  (.ok ()) middle)) := by
  rcases notify_turn yields with
    lost | ⟨solver, found, nobody | ⟨hook, value, listens, call⟩⟩
  · exact .inl lost
  · exact .inr ⟨solver, found, .inl nobody⟩
  · refine .inr ⟨solver, found, .inr ⟨hook, value, listens, ?_⟩⟩
    rcases call with ⟨failure, isResult, failed⟩
      | ⟨middle, isResult, isAfter, done⟩
    · exact .inl ⟨failure, isResult, sound _ _ _ _ _ failed⟩
    · exact .inr ⟨middle, isResult, isAfter, sound _ _ _ _ _ done⟩

theorem runs_notifyAll {id : SolverId} (targets : List VariableId) :
    ∀ {before : World α} {result : Ending α},
      (notifyAll engine id targets).Yields before result after →
        RunsWith known (.calls id targets) before result after := by
  induction targets with
  | nil =>
      intro before result yields
      rcases yields_pure.mp yields with ⟨rfl, rfl⟩
      exact .atOnce .callsDone
  | cons target rest induction =>
      intro before result yields
      rcases yields_bind.mp yields with ⟨failure, failed, rfl⟩
        | ⟨_, middle, done, later⟩
      · rcases notify_cases sound failed with ⟨lost, isFailure, rfl⟩ |
          ⟨solver, found, ⟨_, impossible, _⟩ | ⟨hook, value, listens, call⟩⟩
        · cases isFailure
          exact .atOnce (.callLost lost)
        · cases impossible
        · rcases call with ⟨cause, isFailure, holds, call⟩ | ⟨_, impossible, _⟩
          · cases isFailure
            exact .callFailed found listens call holds
          · cases impossible
      · rcases notify_cases sound done with ⟨_, impossible, _⟩ |
          ⟨solver, found, ⟨nobody, _, rfl⟩ | ⟨hook, value, listens, call⟩⟩
        · cases impossible
        · exact .callSkipped found nobody (induction later)
        · rcases call with ⟨_, impossible, _⟩ | ⟨_, _, rfl, holds, call⟩
          · cases impossible
          · exact .called found listens call holds (induction later)

theorem runs_round {id : SolverId} {targets : List VariableId}
    {result : Ending α}
    (yields : (round engine id targets).Yields before result after) :
    RunsWith known (.round id targets) before result after := by
  rcases round_cases yields with
    ⟨rfl, rfl, rfl⟩ | ⟨some, middle, calls, closing⟩
  · exact .atOnce .roundSkipped
  · have calls := runs_notifyAll sound targets calls
    rcases closing with ⟨rfl, rfl⟩ | ⟨failure, rfl, rfl⟩
    · exact .roundHeld some calls
    · exact .roundBroken some calls

theorem runs_drain {id : SolverId} (patience : Nat) :
    ∀ {taken : Nat} {before : World α} {result : Ending α},
      (drain engine id taken patience).Yields before result after →
        RunsWith known (.drain id taken) before result after := by
  induction patience with
  | zero =>
      intro taken before result yields
      exact absurd yields yields_exhausted
  | succ patience induction =>
      intro taken before result yields
      rw [drain_succ] at yields
      rcases yields_solver_bind.mp yields with
        ⟨lost, rfl, rfl⟩ | ⟨solver, found, rest⟩
      · exact .atOnce (.drainLost lost)
      · cases next : solver.nextDeferred with
        | none =>
            rw [next] at rest
            rcases yields_pure.mp rest with ⟨rfl, rfl⟩
            exact .atOnce (.drained found next)
        | some work =>
            simp only [next] at rest
            split at rest
            · next limit =>
                rcases yields_throw.mp rest with ⟨rfl, rfl⟩
                exact .atOnce (.drainExceeded found (by simp [next]) limit)
            · next within =>
                rcases yields_bind.mp rest with ⟨failure, failed, rfl⟩
                  | ⟨_, middle, served, later⟩
                · rcases serve_cases found failed with
                    ⟨cause, draft, edited, isFailure, rfl⟩
                      | ⟨moved, draft, edited, held⟩
                  · cases isFailure
                    exact .drainFailed found next within edited
                  · exact .drainBroken found next within edited
                      (runs_round sound held)
                · rcases serve_cases found served with
                    ⟨_, _, _, impossible, _⟩ | ⟨moved, draft, edited, held⟩
                  · cases impossible
                  · exact .drainContinued found next within edited
                      (runs_round sound held) (induction later)

theorem runs_settle {id : SolverId} {result : Ending α}
    (yields : (settle engine id).Yields before result after) :
    RunsWith known (.settlement id) before result after := by
  rcases settle_cases yields with ⟨lost, rfl, rfl⟩ |
    ⟨solver, found, left | ⟨idle, last, drains, closing⟩⟩
  · exact .atOnce (.settlementLost lost)
  · rcases left with ⟨draining, rfl, rfl⟩
    exact .atOnce (.settlementLeft found draining)
  · have drains := runs_drain sound engine.patience drains
    rcases closing with ⟨rfl, rfl⟩ | ⟨failure, rfl, rfl⟩
    · exact .settled found idle drains
    · exact .unsettled found idle drains

theorem runs_announce {id : SolverId} {moved : List VariableId}
    {result : Ending α}
    (yields : (announce engine id moved).Yields before result after) :
    RunsWith known (.announcement id moved) before result after := by
  unfold announce at yields
  cases moved with
  | nil =>
      rcases yields_pure.mp yields with ⟨rfl, rfl⟩
      exact .atOnce .unmoved
  | cons target rest =>
      simp only [List.isEmpty_cons, Bool.false_eq_true, if_false] at yields
      have some : target :: rest ≠ [] := List.cons_ne_nil _ _
      rcases yields_bind.mp yields with ⟨failure, failed, rfl⟩
        | ⟨_, middle, done, later⟩
      · exact .unannounced some (runs_round sound failed)
      · exact .announced some (runs_round sound done) (runs_settle sound later)

theorem runs_perform {id : SolverId} {task : Task α} {result : Ending α}
    (yields : (perform engine id task.edit).Yields before result after) :
    RunsWith known (.task id task) before result after := by
  rcases yields_bind.mp yields with ⟨failure, failed, rfl⟩
    | ⟨moved, middle, done, later⟩
  · rcases yields_edit.mp failed with ⟨lost, isFailure, rfl⟩ |
      ⟨solver, draft, found, edited, rfl⟩
    · cases isFailure
      exact .atOnce (.taskLost lost)
    · exact .taskFailed found edited
  · rcases yields_edit.mp done with
      ⟨_, impossible, _⟩ | ⟨solver, draft, found, edited, rfl⟩
    · cases impossible
    · exact .taskDone found edited (runs_announce sound later)

end Dispatch

theorem runs_edit {id : SolverId} {task : Task α} {change : Edit α β}
    {result : Except (Failure α) β} (still : task.edit = change.still)
    (yields : (Action.edit id change).Yields before result after) :
    RunsWith known (.task id task) before (ending result) after := by
  rcases yields_edit.mp yields with
    ⟨lost, rfl, rfl⟩ | ⟨solver, draft, found, edited, rfl⟩
  · exact .atOnce (.taskLost lost)
  · have edited := Edit.yields_still.mpr ⟨result, edited, rfl⟩
    rw [← still] at edited
    cases result with
    | error failure => exact .taskFailed found edited
    | ok value => exact .taskDone found edited (.atOnce .unmoved)

/-! ## Commands -/

def announceConstraint (engine : Engine α) (id : SolverId)
    (terms : List (Argument × Option α)) (total : Option α) :
    Action α ConstraintId := do
  let (constraint, moved) ← edit id (Edit.addConstraint terms total)
  announce engine id moved
  return constraint

def observeNew (handle : VariableHandle) (tag : String) (body : Script α) :
    Action α HookId := do
  let hook ← addHook tag body
  edit handle.solver (Edit.observe handle (some hook))
  return hook

/-- The shape of what a command does that is no batch: it looks up labels and
computes numbers, does one thing at most to solvers or hooks, and binds
labels. -/
inductive Shaped (engine : Engine α) (context : Option α)
    (command : Command α) :
    {β : Type} → Action α β → Prop
  | throw {β : Type} (failure : Failure α) :
      Shaped engine context command (throw failure : Action α β)
  | aside {β : Type} {operation : Operation α} {action : Action α β}
      (isCommand : command = .operation operation)
      (isAside : operation.isAside = true)
      (quiet : Aside (command.binds = true) action) :
      Shaped engine context command action
  | looking {β γ : Type} {action : Action α β} {next : β → Action α γ}
      (quiet : Aside (command.binds = true) action)
      (later : ∀ value, Shaped engine context command (next value)) :
      Shaped engine context command (action >>= next)
  | closing {β γ : Type} {action : Action α β} {next : β → Action α γ}
      (first : Shaped engine context command action)
      (closes : ∀ value, Closes (command.binds = true) (next value)) :
      Shaped engine context command (action >>= next)
  | founding {operation : Operation α} {settings : Settings α}
      (isCommand : command = .operation operation)
      (founds : operation.Founds settings) :
      Shaped engine context command (addSolver settings)
  | changing {id : SolverId} {setting : SettingChange α}
      {change : Settings α → Settings α}
      (isCommand : command = .operation (.change name setting))
      (makes : setting.Makes change) :
      Shaped engine context command
        (update id fun solver => solver.setSettings change)
  | defining (isCommand : command = .defineHook label body) :
      Shaped engine context command (addHook label body)
  | observing (isCommand : command = .observeInline subject body label) :
      Shaped engine context command (observeNew handle subject body)
  | editing {β : Type} {id : SolverId} {task : Task α} {change : Edit α β}
      (asks : command.Asks id task) (still : task.edit = change.still) :
      Shaped engine context command (edit id change)
  | performing {id : SolverId} {task : Task α} (asks : command.Asks id task) :
      Shaped engine context command (perform engine id task.edit)
  | adding {id : SolverId} {terms : List (Argument × Option α)}
      {total : Option α} (asks : command.Asks id (.addConstraint terms total)) :
      Shaped engine context command (announceConstraint engine id terms total)

theorem addConstraint_eq (engine : Engine α) (id : SolverId)
    (terms : List (Argument × Option α)) (total : Option α)
    (label : Option String) :
    addConstraint engine id terms total label = (do
      let constraint ← announceConstraint engine id terms total
      bindConstraint label ⟨id, constraint⟩
      return .constraintId constraint) := by
  simp only [addConstraint, announceConstraint, bind_assoc, pure_bind]

theorem runs_announceConstraint (sound : engine.SoundWith known) {id : SolverId}
    {terms : List (Argument × Option α)} {total : Option α}
    {result : Except (Failure α) ConstraintId}
    (yields : (announceConstraint engine id terms total).Yields before result
      after) :
    RunsWith known (.task id (.addConstraint terms total)) before
      (ending result) after := by
  rcases yields_bind.mp yields with ⟨failure, failed, rfl⟩ |
    ⟨⟨constraint, moved⟩, middle, done, later⟩
  · rcases yields_edit.mp failed with ⟨lost, isFailure, rfl⟩ |
      ⟨solver, draft, found, edited, rfl⟩
    · cases isFailure
      exact .atOnce (.taskLost lost)
    · exact .taskFailed found (Task.yields_addConstraint.mpr ⟨_, edited, rfl⟩)
  · rcases yields_edit.mp done with
      ⟨_, impossible, _⟩ | ⟨solver, draft, found, edited, rfl⟩
    · cases impossible
    · have edited := Task.yields_addConstraint.mpr ⟨_, edited, rfl⟩
      rcases yields_bind.mp later with ⟨failure, failed, rfl⟩
        | ⟨_, last, announced, rest⟩
      · exact .taskDone found edited (runs_announce sound failed)
      · rcases yields_pure.mp rest with ⟨rfl, rfl⟩
        exact .taskDone found edited (runs_announce sound announced)

theorem runs_observeNew {handle : VariableHandle} {tag : String}
    {body : Script α} {result : Except (Failure α) HookId}
    (yields : (observeNew handle tag body).Yields before result after) :
    RunsWith known
      (.task handle.solver (.observe handle (some before.hooks.length)))
        (before.addHook tag body) (ending result) after := by
  rw [observeNew, yields_addHook_bind] at yields
  generalize before.hooks.length = hook at yields ⊢
  have still : (Task.observe handle (some hook) : Task α).edit =
      (Edit.observe handle (some hook) : Edit α Unit).still := rfl
  rcases yields_bind.mp yields with ⟨failure, failed, rfl⟩
    | ⟨_, middle, done, rest⟩
  · have runs : RunsWith known _ _ _ _ := runs_edit still failed
    exact runs
  · have runs : RunsWith known _ _ _ _ := runs_edit still done
    rcases yields_pure.mp rest with ⟨rfl, rfl⟩
    exact runs

/-- Whatever a command does that is no batch, it does by the rules. -/
theorem Shaped.runs {context : Option α} {command : Command α}
    {action : Action α β} (shaped : Shaped engine context command action)
    (sound : engine.SoundWith known) :
    ∀ {before after : World α} {result : Except (Failure α) β},
      action.Yields before result after →
        RunsWith known (.command context command) before (ending result)
          after := by
  induction shaped with
  | throw failure =>
      intro before after result yields
      rcases yields_throw.mp yields with ⟨rfl, rfl⟩
      exact .atOnce .refused
  | aside isCommand isAside quiet =>
      intro before after result yields
      subst isCommand
      have like := quiet.like yields
      cases result with
      | ok value =>
          exact .relabelled (.refl before) (.atOnce (.aside isAside)) like
      | error failure =>
          exact .relabelled (.refl before) (.atOnce .refused) like
  | looking quiet _ induction =>
      intro before after result yields
      rcases yields_bind.mp yields with ⟨failure, failed, rfl⟩
        | ⟨value, middle, done, later⟩
      · exact .relabelled (.refl before) (.atOnce .refused) (quiet.like failed)
      · exact .relabelled (quiet.like done) (induction value later)
          (.refl after)
  | closing _ closes induction =>
      intro before after result yields
      rcases yields_bind.mp yields with ⟨failure, failed, rfl⟩
        | ⟨value, middle, done, later⟩
      · exact induction failed
      · rcases (closes value).like later with ⟨⟨reply, rfl⟩, like⟩
        exact .relabelled (.refl before) (induction done) like
  | founding isCommand founds =>
      intro before after result yields
      subst isCommand
      rcases yields_addSolver.mp yields with ⟨rfl, rfl⟩
      exact .founded founds
  | changing isCommand makes =>
      intro before after result yields
      subst isCommand
      rcases yields_update.mp yields with ⟨rfl, rfl⟩
      exact .changed makes
  | defining isCommand =>
      intro before after result yields
      subst isCommand
      rcases yields_addHook.mp yields with ⟨rfl, rfl⟩
      exact .defined
  | observing isCommand =>
      intro before after result yields
      subst isCommand
      exact .observed (runs_observeNew yields)
  | editing asks still =>
      exact fun yields => .asked asks (runs_edit still yields)
  | performing asks =>
      intro before after result yields
      rw [ending_self]
      exact .asked asks (runs_perform sound yields)
  | adding asks =>
      exact fun yields => .asked asks (runs_announceConstraint sound yields)

section Commands

variable {context : Option α}

namespace Shaped

variable {command : Command α}

theorem answering {id : SolverId} {task : Task α} (asks : command.Asks id task)
    (reply : Reply α) :
    Shaped engine context command (do
      Action.perform engine id task.edit
      return reply) :=
  (performing asks).closing fun _ => .pure reply

theorem addConstraint {id : SolverId} {terms : List (Argument × Option α)}
    {total : Option α} (label : Option String)
    (asks : command.Asks id (.addConstraint terms total)) :
    Shaped engine context command
      (Action.addConstraint engine id terms total label) := by
  rw [addConstraint_eq]
  exact (adding asks).closing fun _ => .bindingConstraint _ _ _ _

theorem observe {handle : VariableHandle} {hook : Option HookId}
    (label : Option String)
    (asks : command.Asks handle.solver (.observe handle hook))
    (binds : command.binds = true) :
    Shaped engine context command (Action.observe handle hook label) :=
  (editing asks rfl).closing fun _ =>
    .bind (.bindSubscription _ _ binds) fun _ => .pure _

end Shaped

theorem newSolver_shaped {label : String}
    {autoSolve refusesContradiction : Bool} {operand : Operand α}
    {cascadeLimit : Int} {tolerance : Option α}
    (evaluated : ∀ literal, operand = .literal literal → tolerance = literal) :
    Shaped engine context
      (.operation
        (.newSolver label autoSolve refusesContradiction operand cascadeLimit))
      (newSolver label autoSolve refusesContradiction tolerance
        cascadeLimit) := by
  cases tolerance with
  | none => exact .throw _
  | some value =>
      simp only [newSolver]
      split
      · exact .throw _
      · next nonnegative =>
          split
          · exact .throw _
          · next positive =>
              refine .closing (.founding rfl ?_) fun _ =>
                .bind (.naming _ rfl) fun _ => .pure _
              exact ⟨⟨label, operand, rfl, evaluated⟩,
                ⟨value, rfl, nonnegative⟩, positive⟩

theorem changeSetting_shaped (name : String) (id : SolverId)
    (setting : SettingChange α) :
    Shaped engine context (.operation (.change name setting))
      (changeSetting context id setting) := by
  have changes : ∀ {change : Settings α → Settings α}, setting.Makes change →
      Shaped engine context (.operation (.change name setting)) (do
        update id fun solver => solver.setSettings change
        return (Reply.nothing : Reply α)) :=
    fun makes => (Shaped.changing rfl makes).closing fun _ => .pure _
  cases setting with
  | autoSolve value => exact changes .autoSolve
  | refusesContradiction value => exact changes .refusesContradiction
  | tolerance operand =>
      exact .looking (Reads.evaluate context operand).aside fun tolerance =>
        changes .tolerance
  | cascadeLimit value => exact changes .cascadeLimit

theorem askSolver_shaped (name : String) (id : SolverId) (query : SolverQuery) :
    Shaped engine context (.operation (.askSolver name query))
      (askSolver id query : Action α _) := by
  cases query with
  | isOverConstrained =>
      exact .closing (.editing .isOverConstrained rfl) fun _ => .pure _
  | isUnderConstrained =>
      exact .closing (.editing .isUnderConstrained rfl) fun _ => .pure _
  | freeVariables =>
      exact .closing (.editing .freeVariables rfl) fun _ => .pure _
  | residuals => exact .aside rfl rfl (.bind (.solver id) fun _ => .pure _)
  | describe => exact .aside rfl rfl (.bind (.solver id) fun _ => .pure _)
  | autoSolve => exact .aside rfl rfl (.bind (.solver id) fun _ => .pure _)
  | refusesContradiction =>
      exact .aside rfl rfl (.bind (.solver id) fun _ => .pure _)
  | tolerance =>
      refine .aside rfl rfl (.bind (.solver id) fun solver => ?_)
      split
      · exact .pure _
      · exact .throw _
  | cascadeLimit => exact .aside rfl rfl (.bind (.solver id) fun _ => .pure _)

theorem build_shaped (name : String) (label : Option String) :
    Shaped engine context (.operation (.build name label))
      (build engine name label) := by
  refine .looking (.lookUp _ _) fun builder => ?_
  split
  · exact .throw _
  · exact .looking (Closes.bindBuilder _ _).aside fun _ =>
      .addConstraint label .build

theorem operate_shaped (operation : Operation α) :
    Shaped engine context (.operation operation)
      (operate engine context operation) := by
  have handle : ∀ {free : Prop} {β : Type} (table : Labels α → Table String β)
      (label : String), Aside free (lookUp table label) := Aside.lookUp
  have number : ∀ {free : Prop} operand,
      Aside free (evaluate context operand) :=
    fun operand => (Reads.evaluate context operand).aside
  have target : ∀ {free : Prop} target,
      Aside free (resolve target : Action α Argument) :=
    fun target => (Reads.resolve target).aside
  cases operation with
  | newSolver label autoSolve refusesContradiction operand cascadeLimit =>
      cases operand with
      | literal value =>
          have evaluated : evaluate context (.literal value) = pure value := rfl
          rw [operate, evaluated, pure_bind]
          exact newSolver_shaped fun literal equal => Operand.literal.inj equal
      | derived source factor offset =>
          refine .looking (number _) fun tolerance => newSolver_shaped ?_
          intro literal impossible
          cases impossible
  | change name setting =>
      exact .looking (handle _ _) fun id => changeSetting_shaped name id setting
  | askSolver name query =>
      exact .looking (handle _ _) fun id => askSolver_shaped name id query
  | solve name => exact .looking (handle _ _) fun id => .answering .solve _
  | addVariable name label title operand =>
      refine .looking (handle _ _) fun id =>
        .looking (number operand) fun value => ?_
      exact .closing (.editing .addVariable rfl) fun _ =>
        .bind (.naming _ rfl) fun _ => .pure _
  | addConstraint name label targets operand =>
      refine .looking (Reads.resolveAll targets).aside fun targets =>
        .looking (handle _ _) fun id => ?_
      refine .looking (Reads.collectTerms _ _ _).aside fun terms =>
        .looking (number operand) fun total => ?_
      exact .addConstraint label .addConstraint
  | checkConstraint name subject =>
      refine .aside rfl rfl (.bind (handle _ _) fun _ =>
        .bind (handle _ _) fun _ => ?_)
      exact .bind (.consult _ _) fun _ => .pure _
  | newBuilder name label =>
      exact .aside rfl rfl (.bind (handle _ _) fun _ =>
        .bind (Closes.bindBuilder _ _).aside fun _ => .pure _)
  | builderTerm name subject operand =>
      refine .aside rfl rfl (.bind (handle _ _) fun _ =>
        .bind (target _) fun _ => ?_)
      refine .bind (number operand) fun _ => .bind (.consult _ _) fun _ => ?_
      dsimp only
      split
      · exact .bind (Closes.bindBuilder _ _).aside fun _ => .pure _
      · exact .pure _
  | builderSum name operand =>
      refine .aside rfl rfl (.bind (handle _ _) fun _ =>
        .bind (number operand) fun _ => ?_)
      exact .bind (Closes.bindBuilder _ _).aside fun _ => .pure _
  | build name label => exact build_shaped name label
  | variableHandle name id label =>
      exact .aside rfl rfl (.bind (handle _ _) fun _ =>
        .bind (Closes.naming _ rfl).aside fun _ => .pure _)
  | constraintHandle name id label =>
      exact .aside rfl rfl (.bind (handle _ _) fun _ =>
        .bind (Closes.bindConstraint _ _).aside fun _ => .pure _)
  | askVariable subject query =>
      exact .aside rfl rfl (.bind (handle _ _) fun _ => .consult _ _)
  | valueEquals left right operand =>
      refine .aside rfl rfl (.bind (handle _ _) fun _ =>
        .bind (handle _ _) fun _ => ?_)
      refine .bind (number operand) fun tolerance =>
        .bind (.consult _ _) fun _ => ?_
      refine .bind (.consult _ _) fun _ => ?_
      cases tolerance with
      | some tolerance => exact .pure _
      | none => exact .bind (.consult _ _) fun _ => .pure _
  | setValue subject operand style =>
      refine .looking (handle _ _) fun handle =>
        .looking (number operand) fun value => ?_
      exact .answering .setValue _
  | lock subject => exact .looking (handle _ _) fun handle => .answering .lock _
  | unlock subject =>
      exact .looking (handle _ _) fun handle =>
        .closing (.editing .unlock rfl) fun _ => .pure _
  | lockConstraint subject label =>
      refine .aside rfl rfl (.bind (handle _ _) fun _ =>
        .bind (.consult _ _) fun contents => ?_)
      split
      · exact .pure _
      · exact .bind (Closes.bindConstraint _ _).aside fun _ => .pure _
  | deleteVariable subject =>
      exact .looking (handle _ _) fun handle =>
        .closing (.editing .deleteVariable rfl) fun _ => .pure _
  | sameSolver name reference =>
      refine .aside rfl rfl (.bind (Reads.dereference _).aside fun _ =>
        .bind (handle _ _) fun _ => ?_)
      split
      · exact .pure _
      · exact .pure _
      · exact .throw _
  | sameHandle left right =>
      exact .aside rfl rfl (.bind (Reads.dereference _).aside fun _ =>
        .bind (Reads.dereference _).aside fun _ => .pure _)
  | countHandles references =>
      exact .aside rfl rfl (.bind (Reads.dereferenceAll _).aside fun _ =>
        .pure _)
  | cancel name =>
      exact .looking (handle _ _) fun subscription =>
        .closing (.editing .cancel rfl) fun _ => .pure _
  | subscriptionStatus name =>
      exact .aside rfl rfl (.bind (handle _ _) fun _ =>
        .bind (Reads.isActive _).aside fun _ => .pure _)
  | raise alarm text => exact .throw _
  | askConstraint subject query =>
      exact .aside rfl rfl (.bind (handle _ _) fun _ => .consult _ _)
  | coefficient subject name =>
      exact .aside rfl rfl (.bind (handle _ _) fun _ =>
          .bind (target _) fun _ =>
        .bind (.consult _ _) fun _ => .pure _)
  | contains subject name =>
      exact .aside rfl rfl (.bind (handle _ _) fun _ =>
          .bind (target _) fun _ =>
        .bind (.consult _ _) fun _ => .bind (.consult _ _) fun _ => .pure _)
  | setTerm subject name operand =>
      refine .looking (handle _ _) fun handle =>
        .looking (target _) fun argument => ?_
      exact .looking (number operand) fun value => .answering .setTerm _
  | addTerm subject name operand =>
      refine .looking (handle _ _) fun handle =>
        .looking (target _) fun argument => ?_
      exact .looking (number operand) fun value => .answering .addTerm _
  | removeTerm subject name =>
      refine .looking (handle _ _) fun handle =>
        .looking (target _) fun argument => ?_
      exact .answering .removeTerm _
  | setSum subject operand style =>
      refine .looking (handle _ _) fun handle =>
        .looking (number operand) fun total => ?_
      exact .answering .setSum _
  | deleteConstraint subject =>
      exact .looking (handle _ _) fun handle =>
        .closing (.editing .deleteConstraint rfl) fun _ => .pure _

theorem defineHook_shaped (label : String) (body : Script α) :
    Shaped engine context (.defineHook label body)
      (execute engine context (.defineHook label body)) :=
  (Shaped.defining rfl).closing fun _ => .bind (.bindHook _ _) fun _ => .pure _

theorem observe_shaped (subject : String) (listener : Listener)
    (label : Option String) :
    Shaped engine context (.observe subject listener label)
      (execute engine context (.observe subject listener label)) := by
  refine .looking (.lookUp _ _) fun handle => ?_
  cases listener with
  | nobody => exact .observe label .observe rfl
  | label name =>
      exact .looking (.lookUp _ _) fun hook => .observe label .observe rfl
  | foreign kind => exact .throw _

theorem observeInline_shaped (subject : String) (body : Script α)
    (label : Option String) :
    Shaped engine context (.observeInline subject body label)
      (execute engine context (.observeInline subject body label)) := by
  refine .looking (.lookUp _ _) fun handle => ?_
  have split : (do
      let hook ← addHook subject body
      Action.observe handle (some hook) label : Action α (Reply α)) = (do
        let hook ← observeNew handle subject body
        bindSubscription label ⟨handle.solver, handle.id, some hook⟩
        return .nothing) := by
    simp only [Action.observe, observeNew, bind_assoc, pure_bind]
  rw [split]
  exact (Shaped.observing rfl).closing fun _ =>
    .bind (.bindSubscription _ _ rfl) fun _ => .pure _

end Commands

mutual

theorem execute_runs (sound : engine.SoundWith known) (context : Option α)
    (command : Command α) (before : World α)
    (result : Except (Failure α) (Reply α)) (after : World α)
    (yields : (execute engine context command).Yields before result after) :
    RunsWith known (.command context command) before (ending result) after := by
  cases command with
  | operation operation => exact (operate_shaped operation).runs sound yields
  | defineHook label body =>
      exact (defineHook_shaped label body).runs sound yields
  | observe subject listener label =>
      exact (observe_shaped subject listener label).runs sound yields
  | observeInline subject body label =>
      exact (observeInline_shaped subject body label).runs sound yields
  | batch name body =>
      rcases yields_bind.mp yields with ⟨failure, failed, rfl⟩
        | ⟨id, start, named, rest⟩
      · rw [(Reads.lookUp _ _).same failed]
        exact .atOnce .refused
      · rw [(Reads.lookUp _ _).same named] at rest
        rcases yields_solver_bind.mp rest with
          ⟨_, rfl, rfl⟩ | ⟨solver, found, rest⟩
        · exact .atOnce .refused
        · simp only [yields_update_bind, yields_outcome_bind] at rest
          rcases rest with ⟨outcome, middle, ran, closing⟩
          have runs := executeScript_runs sound context body _ _ _ ran
          cases outcome with
          | error failure =>
              rcases yields_throw.mp closing with ⟨rfl, rfl⟩
              exact .batched found runs fun impossible => nomatch impossible
          | ok value =>
              rcases yields_pure_bind.mp closing with closing
              split at closing
              · next auto =>
                  rcases yields_bind.mp closing with ⟨failure, failed, rfl⟩ |
                    ⟨_, last, done, replying⟩
                  · exact .batchSolved found runs auto
                      (runs_perform sound failed)
                  · rcases yields_pure.mp replying with ⟨rfl, rfl⟩
                    exact .batchSolved found runs auto (runs_perform sound done)
              · next off =>
                  rcases yields_pure.mp closing with ⟨rfl, rfl⟩
                  exact .batched found runs fun _ => by simpa using off
termination_by structural command

theorem executeScript_runs (sound : engine.SoundWith known) (context : Option α)
    (script : Script α) (before : World α) (result : Ending α) (after : World α)
    (yields : (executeScript engine context script).Yields before result
      after) :
    RunsWith known (.script context script) before result after := by
  cases script with
  | done =>
      rcases yields_pure.mp yields with ⟨rfl, rfl⟩
      exact .atOnce .finished
  | next command guarded rest =>
      rw [executeScript, yields_outcome_bind] at yields
      rcases yields with ⟨outcome, middle, ran, later⟩
      have runs := execute_runs sound context command _ _ _ ran
      rw [yields_record_bind] at later
      cases guarded with
      | true =>
          have continues := executeScript_runs sound context rest _ _ _ later
          exact .continued runs (fun impossible => nomatch impossible) continues
      | false =>
          cases outcome with
          | error failure =>
              rcases yields_throw.mp later with ⟨rfl, rfl⟩
              exact .stopped runs rfl
          | ok reply =>
              have continues :=
                executeScript_runs sound context rest _ _ _ later
              exact .continued runs (fun _ => ⟨reply, rfl⟩) continues
termination_by structural script

end

end Action

@[simp] theorem Engine.patience_ofDepth (patience depth : Nat) :
    (ofDepth patience depth : Engine α).patience = patience := by
  cases depth <;> rfl

/-- What happens when an engine is made to call a hook, at whatever depth. -/
def Engine.Calls (patience : Nat) : Calls α :=
  fun body value before result after =>
    ∃ depth, ((Engine.ofDepth patience depth).call body value).Yields before
      result after

theorem Engine.ofDepth_soundWith (patience depth : Nat) :
    (Engine.ofDepth patience depth : Engine α).SoundWith
      (Engine.Calls patience) := by
  induction depth with
  | zero =>
      intro body value before result after yields
      exact absurd yields Action.yields_exhausted
  | succ depth induction =>
      intro body value before result after yields
      exact ⟨⟨depth + 1, yields⟩,
        Action.executeScript_runs induction (some value) body _ _ _ yields⟩

theorem Engine.ofDepth_sound (patience depth : Nat) :
    (Engine.ofDepth patience depth : Engine α).Sound := by
  induction depth with
  | zero =>
      intro body value before result after yields
      exact absurd yields Action.yields_exhausted
  | succ depth induction =>
      intro body value before result after yields
      exact ⟨trivial,
        Action.executeScript_runs induction (some value) body _ _ _ yields⟩

end LiveLinear
