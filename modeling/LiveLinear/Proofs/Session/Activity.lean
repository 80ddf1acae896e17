import LiveLinear.Proofs.Session.Yields
import LiveLinear.Proofs.Solver.Pieces
import LiveLinear.Session.Run

namespace LiveLinear

/-! # Activities

What carrying out commands comes down to, as a relation. It has a rule for each
way in which an activity can go, and neither depth nor rounds to run out of. -/

/-- How an activity ends: well, or with a failure. -/
abbrev Ending (α : Type u) := Except (Failure α) Unit

/-- The ending of an action, without what it answers. -/
def ending (result : Except (Failure α) β) : Ending α :=
  result.map fun _ => ()

@[simp] theorem ending_ok (value : β) :
    ending (.ok value : Except (Failure α) β) = .ok () :=
  rfl

@[simp] theorem ending_error (failure : Failure α) :
    ending (.error failure : Except (Failure α) β) = .error failure :=
  rfl

@[simp] theorem ending_self (result : Ending α) : ending result = result := by
  cases result <;> rfl

/-- The task that a command gives to a solver, once its labels have been looked
up and its numbers have been computed. -/
inductive Command.Asks : Command α → SolverId → Task α → Prop
  | solve {id} : Asks (.operation (.solve name)) id .solve
  | addVariable {id} :
      Asks (.operation (.addVariable name label title operand)) id
        (.addVariable title value)
  | addConstraint {id} :
      Asks (.operation (.addConstraint name label targets operand)) id
        (.addConstraint terms total)
  | build {id} :
      Asks (.operation (.build name label)) id (.addConstraint terms total)
  | setValue : Asks (.operation (.setValue subject operand style)) handle.solver
      (.setValue handle value)
  | lock : Asks (.operation (.lock subject)) handle.solver (.lock handle)
  | unlock : Asks (.operation (.unlock subject)) handle.solver (.unlock handle)
  | deleteVariable : Asks (.operation (.deleteVariable subject)) handle.solver
      (.deleteVariable handle)
  | observe :
      Asks (.observe subject listener label) handle.solver
        (.observe handle hook)
  | cancel {id} : Asks (.operation (.cancel name)) id (.forget target hook)
  | setTerm : Asks (.operation (.setTerm subject target operand)) handle.solver
      (.setTerm handle argument value)
  | addTerm : Asks (.operation (.addTerm subject target operand)) handle.solver
      (.addTerm handle argument value)
  | removeTerm : Asks (.operation (.removeTerm subject target)) handle.solver
      (.removeTerm handle argument)
  | setSum : Asks (.operation (.setSum subject operand style)) handle.solver
      (.setSum handle total)
  | deleteConstraint :
      Asks (.operation (.deleteConstraint subject)) handle.solver
        (.deleteConstraint handle)
  | isOverConstrained {id} :
      Asks (.operation (.askSolver name .isOverConstrained)) id
        .isOverConstrained
  | isUnderConstrained {id} :
      Asks (.operation (.askSolver name .isUnderConstrained)) id
        .isUnderConstrained
  | freeVariables {id} :
      Asks (.operation (.askSolver name .freeVariables)) id .freeVariables

/-- Whether an operation leaves every solver as it is. -/
def Operation.isAside : Operation α → Bool
  | .askSolver _ query =>
      match query with
      | .isOverConstrained | .isUnderConstrained | .freeVariables => false
      | _ => true
  | .checkConstraint .. | .newBuilder .. | .builderTerm .. | .builderSum ..
      | .variableHandle .. | .constraintHandle .. | .askVariable ..
      | .valueEquals .. | .lockConstraint .. | .sameSolver .. | .sameHandle ..
      | .countHandles .. | .subscriptionStatus .. | .raise ..
      | .askConstraint .. | .coefficient .. | .contains .. => true
  | _ => false

/-- What a change of setting does to settings. -/
inductive SettingChange.Makes : SettingChange α →
    (Settings α → Settings α) → Prop
  | autoSolve : Makes (.autoSolve value)
      fun settings => { settings with autoSolve := value }
  | refusesContradiction : Makes (.refusesContradiction value)
      fun settings => { settings with refusesContradiction := value }
  | tolerance : Makes (.tolerance operand)
      fun settings => { settings with tolerance := value }
  | cascadeLimit : Makes (.cascadeLimit value)
      fun settings => { settings with cascadeLimit := value }

/-- The settings that a solver may be made with. -/
structure Operation.Founds (operation : Operation α) (settings : Settings α)
    [Zero α] [LT α] :
    Prop where
  asked : ∃ label operand, operation = .newSolver label settings.autoSolve
    settings.refusesContradiction operand settings.cascadeLimit ∧
      ∀ literal, operand = .literal literal → settings.tolerance = literal
  tolerance : ∃ tolerance, settings.tolerance = some tolerance ∧ ¬tolerance < 0
  cascadeLimit : ¬settings.cascadeLimit < 1

def Solver.setAuto (solver : Solver α) (autoSolve : Bool) : Solver α :=
  solver.setSettings fun settings => { settings with autoSolve }

/-- The hook that listens to a variable, and the value to call it with. -/
def World.listener (world : World α) (solver : Solver α) (target : VariableId) :
    Option (Hook α × α) := do
  let contents ← solver.unknowns.get? target
  let hook ← contents.hook
  let listener ← world.hooks[hook]?
  return (listener, contents.value)

theorem World.mem_hooks_of_listener {world : World α} {solver : Solver α}
    {target : VariableId} {hook : Hook α} {value : α}
    (listens : world.listener solver target = some (hook, value)) :
    hook ∈ world.hooks := by
  simp only [World.listener, Option.bind_eq_bind, Option.bind_eq_some_iff]
    at listens
  rcases listens with ⟨_, _, id, _, other, found, same⟩
  cases same
  exact List.mem_of_getElem? found

inductive Activity (α : Type u) where
  | command (context : Option α) (command : Command α)
  | script (context : Option α) (script : Script α)
  | task (id : SolverId) (task : Task α)
  | announcement (id : SolverId) (moved : List VariableId)
  | round (id : SolverId) (targets : List VariableId)
  | calls (id : SolverId) (targets : List VariableId)
  | settlement (id : SolverId)
  | drain (id : SolverId) (taken : Nat)

/-- Two worlds that may differ in their labels only. -/
structure World.Like (before after : World α) : Prop where
  solvers : after.solvers = before.solvers
  hooks : after.hooks = before.hooks
  history : after.history = before.history

namespace World.Like

theorem refl (world : World α) : world.Like world :=
  ⟨rfl, rfl, rfl⟩

theorem symm {before after : World α} (like : before.Like after) :
    after.Like before :=
  ⟨like.solvers.symm, like.hooks.symm, like.history.symm⟩

theorem trans {first second third : World α} (left : first.Like second)
    (right : second.Like third) : first.Like third :=
  ⟨right.solvers.trans left.solvers, right.hooks.trans left.hooks,
    right.history.trans left.history⟩

theorem relabel (world : World α) (labels : Labels α) :
    world.Like { world with labels } :=
  ⟨rfl, rfl, rfl⟩

end World.Like

/-! ## The rules -/

namespace Activity

variable {α : Type} [Scalar α]

/-- An activity that is over at once, and leaves the world as it is. -/
inductive Over : Activity α → World α → Ending α → Prop
  | refused {command} : Over (.command context command) world (.error cause)
  | aside (isAside : operation.isAside = true) :
      Over (.command context (.operation operation)) world (.ok ())
  | finished : Over (.script context .done) world (.ok ())
  | taskLost {id task} (lost : world.solvers[id]? = none) :
      Over (.task id task) world (.error (.unknownSolver id))
  | unmoved {id} : Over (.announcement id []) world (.ok ())
  | roundSkipped {id} : Over (.round id []) world (.ok ())
  | callsDone {id} : Over (.calls id []) world (.ok ())
  | callLost {id} (lost : world.solvers[id]? = none) :
      Over (.calls id (target :: rest)) world (.error (.unknownSolver id))
  | settlementLost {id} (lost : world.solvers[id]? = none) :
      Over (.settlement id) world (.error (.unknownSolver id))
  | settlementLeft {id} (found : world.solvers[id]? = some solver)
      (draining : solver.draining = true) : Over (.settlement id) world (.ok ())
  | drainLost {id} (lost : world.solvers[id]? = none) :
      Over (.drain id taken) world (.error (.unknownSolver id))
  | drained {id} (found : world.solvers[id]? = some solver)
      (nothing : solver.nextDeferred = none) :
      Over (.drain id taken) world (.ok ())
  | drainExceeded {id} {solver : Solver α} {taken : Nat}
      (found : world.solvers[id]? = some solver)
      (more : solver.nextDeferred.isSome = true)
      (limit : solver.settings.cascadeLimit < taken + 1) :
      Over (.drain id taken) world
        (.error (.cascade solver.settings.cascadeLimit))

/-- What is known of each hook that is called: its body, the value that it is
called with, the world that it finds, how it ends and the world that it
leaves. -/
abbrev Calls (α : Type) :=
  Script α → α → World α → Ending α → World α → Prop

/-- How activities go, if `known` is what is known of the hooks that they
call. -/
inductive RunsWith (known : Calls α) :
    Activity α → World α → Ending α → World α → Prop
  /-- Labels do not matter. -/
  | relabelled (ready : before.Like start)
      (runs : RunsWith known activity start result final)
      (done : final.Like after) : RunsWith known activity before result after
  | atOnce (isOver : activity.Over world result) :
      RunsWith known activity world result world
  -- Commands.
  | founded (founds : operation.Founds settings) :
      RunsWith known (.command context (.operation operation)) world (.ok ())
        (world.addSolver settings)
  | changed {id} (makes : setting.Makes change) :
      RunsWith known (.command context (.operation (.change name setting)))
        world (.ok ()) (world.change id fun solver => solver.setSettings change)
  | asked {id command task} (asks : command.Asks id task)
      (runs : RunsWith known (.task id task) before result after) :
      RunsWith known (.command context command) before result after
  | defined :
      RunsWith known (.command context (.defineHook label body)) world (.ok ())
        (world.addHook label body)
  | observed
      (runs :
        RunsWith known
          (.task handle.solver (.observe handle (some before.hooks.length)))
            (before.addHook subject body) result after) :
      RunsWith known (.command context (.observeInline subject body label))
        before result after
  /-- A batch that fails, or that is held with automatic solving off already. -/
  | batched {id} (found : before.solvers[id]? = some solver)
      (runs : RunsWith known (.script context body)
        (before.change id fun solver => solver.setAuto false) result after)
      (noSolve : result = .ok () → solver.settings.autoSolve = false) :
      RunsWith known (.command context (.batch name body)) before result
        (after.change id fun other => other.setAuto solver.settings.autoSolve)
  | batchSolved {id} (found : before.solvers[id]? = some solver)
      (runs : RunsWith known (.script context body)
        (before.change id fun solver => solver.setAuto false) (.ok ()) middle)
      (auto : solver.settings.autoSolve = true)
      (solves : RunsWith known (.task id .solve)
        (middle.change id fun other => other.setAuto solver.settings.autoSolve)
          result after) :
      RunsWith known (.command context (.batch name body)) before result after
  -- Scripts.
  | stopped {command} {outcome : Except (Failure α) (Reply α)}
      (runs :
        RunsWith known (.command context command) before (ending outcome) after)
      (failed : outcome = .error cause) :
      RunsWith known (.script context (.next command false rest)) before
        (.error cause) (after.record (.commandEnded command outcome))
  | continued {command} {outcome : Except (Failure α) (Reply α)}
      (runs : RunsWith known (.command context command) before (ending outcome)
        middle)
      (goesOn : guarded = false → ∃ reply, outcome = .ok reply)
      (later : RunsWith known (.script context rest)
        (middle.record (.commandEnded command outcome)) result after) :
      RunsWith known (.script context (.next command guarded rest)) before
        result after
  -- Tasks and their announcements.
  | taskFailed {id task} (found : before.solvers[id]? = some solver)
      (yields : task.edit.Yields ⟨solver, []⟩ (.error cause) draft) :
      RunsWith known (.task id task) before (.error cause)
        (before.adopt id draft)
  | taskDone {id task} (found : before.solvers[id]? = some solver)
      (yields : task.edit.Yields ⟨solver, []⟩ (.ok moved) draft)
      (announced : RunsWith known (.announcement id moved)
        (before.adopt id draft) result after) :
      RunsWith known (.task id task) before result after
  | unannounced {id} (some : moved ≠ [])
      (round : RunsWith known (.round id moved) before (.error cause) after) :
      RunsWith known (.announcement id moved) before (.error cause) after
  | announced {id} (some : moved ≠ [])
      (round : RunsWith known (.round id moved) before (.ok ()) middle)
      (settled : RunsWith known (.settlement id) middle result after) :
      RunsWith known (.announcement id moved) before result after
  -- Rounds of hooks.
  | roundHeld {id} (some : targets ≠ [])
      (calls : RunsWith known (.calls id targets)
        ((before.record (.roundBegan id targets)).change id fun solver =>
          { solver with dispatching := true }) (.ok ()) after) :
      RunsWith known (.round id targets) before (.ok ())
        ((after.change id fun solver =>
          { solver with dispatching := false }).record (.roundEnded id))
  | roundBroken {id} (some : targets ≠ [])
      (calls : RunsWith known (.calls id targets)
        ((before.record (.roundBegan id targets)).change id fun solver =>
          { solver with dispatching := true }) (.error cause) after) :
      RunsWith known (.round id targets) before (.error cause)
        ((after.change id fun solver =>
          { solver.dropDeferred with dispatching := false }).record
            (.roundEnded id))
  | callSkipped {id} (found : before.solvers[id]? = some solver)
      (nobody : before.listener solver target = none)
      (later : RunsWith known (.calls id rest) before result after) :
      RunsWith known (.calls id (target :: rest)) before result after
  | callFailed {id} (found : before.solvers[id]? = some solver)
      (listens : before.listener solver target = some (hook, value))
      (call : RunsWith known (.script (some value) hook.body)
        (before.record (.hookCalled id target hook.tag value))
          (.error cause) after)
      (holds : known hook.body value
        (before.record (.hookCalled id target hook.tag value)) (.error cause)
          after) :
      RunsWith known (.calls id (target :: rest)) before (.error cause) after
  | called {id} (found : before.solvers[id]? = some solver)
      (listens : before.listener solver target = some (hook, value))
      (call : RunsWith known (.script (some value) hook.body)
        (before.record (.hookCalled id target hook.tag value)) (.ok ()) middle)
      (holds : known hook.body value
        (before.record (.hookCalled id target hook.tag value)) (.ok ()) middle)
      (later :
        RunsWith known (.calls id rest)
          (middle.record (.hookReturned id target)) result after) :
      RunsWith known (.calls id (target :: rest)) before result after
  -- Deferred work.
  | settled {id} (found : before.solvers[id]? = some solver)
      (idle : solver.draining = false)
      (drains : RunsWith known (.drain id 0)
        (before.change id fun solver => { solver with draining := true })
          (.ok ()) after) :
      RunsWith known (.settlement id) before (.ok ())
        (after.change id fun solver => { solver with draining := false })
  | unsettled {id} (found : before.solvers[id]? = some solver)
      (idle : solver.draining = false)
      (drains : RunsWith known (.drain id 0)
        (before.change id fun solver => { solver with draining := true })
        (.error cause) after) :
      RunsWith known (.settlement id) before (.error cause)
        (after.change id fun solver =>
          { solver.dropDeferred with draining := false })
  | drainFailed {id} {solver : Solver α} {taken : Nat}
      (found : before.solvers[id]? = some solver)
      (next : solver.nextDeferred = some edit)
      (within : ¬solver.settings.cascadeLimit < taken + 1)
      (yields : edit.Yields ⟨solver, []⟩ (.error cause) draft) :
      RunsWith known (.drain id taken) before (.error cause)
        (before.adopt id draft)
  | drainBroken {id} {solver : Solver α} {taken : Nat}
      (found : before.solvers[id]? = some solver)
      (next : solver.nextDeferred = some edit)
      (within : ¬solver.settings.cascadeLimit < taken + 1)
      (yields : edit.Yields ⟨solver, []⟩ (.ok moved) draft)
      (round : RunsWith known (.round id moved) (before.adopt id draft)
        (.error cause) after) :
      RunsWith known (.drain id taken) before (.error cause) after
  | drainContinued {id} {solver : Solver α} {taken : Nat}
      (found : before.solvers[id]? = some solver)
      (next : solver.nextDeferred = some edit)
      (within : ¬solver.settings.cascadeLimit < taken + 1)
      (yields : edit.Yields ⟨solver, []⟩ (.ok moved) draft)
      (round : RunsWith known (.round id moved) (before.adopt id draft) (.ok ())
        middle)
      (later : RunsWith known (.drain id (taken + 1)) middle result after) :
      RunsWith known (.drain id taken) before result after

abbrev Runs (activity : Activity α) (before : World α) (result : Ending α)
    (after : World α) : Prop :=
  activity.RunsWith (fun _ _ _ _ _ => True) before result after

end Activity

end LiveLinear
