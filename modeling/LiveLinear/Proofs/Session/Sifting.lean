import LiveLinear.Proofs.Session.Reached
import LiveLinear.Proofs.Solver.Sifting

namespace LiveLinear

/-! # Commands that fail over a number

No command fails because a number is not finite unless some constraint has such
a number when the command has failed. -/

variable {α : Type}

theorem map_ne {β γ : Type} {outcome : Except (Failure α) β}
    {failure : Failure α} (other : outcome ≠ .error failure) (compute : β → γ) :
    outcome.map compute ≠ .error failure := by
  cases outcome with
  | error cause => exact fun same => other (congrArg _ (Except.error.inj same))
  | ok value => simp [Except.map]

theorem bind_ne {β γ : Type} {outcome : Except (Failure α) β}
    {failure : Failure α} {next : β → Except (Failure α) γ}
    (other : outcome ≠ .error failure)
    (later : ∀ value, next value ≠ .error failure) :
    (outcome >>= next) ≠ .error failure := by
  cases outcome with
  | error cause => exact fun same => other (congrArg _ (Except.error.inj same))
  | ok value => exact later value

theorem pure_ne {β : Type} (value : β) (failure : Failure α) :
    (pure value : Except (Failure α) β) ≠ .error failure :=
  fun impossible => nomatch impossible

/-! ## Looking labels up and computing numbers -/

namespace Action

variable {β γ : Type}

def Spares (action : Action α β) : Prop :=
  ∀ before result after, action.Yields before result after →
    after.solvers = before.solvers ∧ result ≠ .error .entriesNotFinite

namespace Spares

theorem pure (value : β) : Spares (Pure.pure value : Action α β) := by
  intro before result after yields
  rcases yields_pure.mp yields with ⟨rfl, rfl⟩
  exact ⟨rfl, by simp⟩

theorem throw {failure : Failure α} (other : failure ≠ .entriesNotFinite) :
    Spares (throw failure : Action α β) := by
  intro before result after yields
  rcases yields_throw.mp yields with ⟨rfl, rfl⟩
  exact ⟨rfl, fun same => other (Except.error.inj same)⟩

theorem get : Spares (get : Action α (World α)) := by
  intro before result after yields
  rcases yields_get.mp yields with ⟨rfl, rfl⟩
  exact ⟨rfl, by simp⟩

theorem relabel (change : Labels α → Labels α) : Spares (relabel change) := by
  intro before result after yields
  rcases yields_relabel.mp yields with ⟨rfl, rfl⟩
  exact ⟨rfl, by simp⟩

theorem addHook (tag : String) (body : Script α) :
    Spares (addHook tag body) := by
  intro before result after yields
  rcases yields_addHook.mp yields with ⟨rfl, rfl⟩
  exact ⟨rfl, by simp⟩

theorem ofOutcome {outcome : Except (Failure α) β}
    (harmless : outcome ≠ .error .entriesNotFinite) :
    Spares (ofOutcome outcome) := by
  intro before result after yields
  rcases yields_ofOutcome.mp yields with ⟨rfl, rfl⟩
  exact ⟨rfl, harmless⟩

theorem bind {action : Action α β} {next : β → Action α γ}
    (first : Spares action) (later : ∀ value, Spares (next value)) :
    Spares (action >>= next) := by
  intro before result after yields
  rcases yields_bind.mp yields with ⟨failure, failed, rfl⟩
    | ⟨value, middle, done, rest⟩
  · rcases first _ _ _ failed with ⟨same, other⟩
    exact ⟨same, fun equal => other (congrArg _ (Except.error.inj equal))⟩
  · rcases later value _ _ _ rest with ⟨same, other⟩
    exact ⟨same.trans (first _ _ _ done).1, other⟩

theorem solver (id : SolverId) : Spares (solver id : Action α (Solver α)) := by
  refine bind get fun world => ?_
  split
  · exact pure _
  · exact throw (by simp)

theorem consult (id : SolverId) {question : Solver α → Except (Failure α) β}
    (harmless : ∀ solver, question solver ≠ .error .entriesNotFinite) :
    Spares (consult id question) :=
  bind (solver id) fun solver => ofOutcome (harmless solver)

theorem lookUp (table : Labels α → Table String β) (label : String) :
    Spares (lookUp table label) := by
  refine bind get fun world => ?_
  split
  · exact pure _
  · exact throw (by simp)

theorem resolve (target : Target) :
    Spares (resolve target : Action α Argument) := by
  cases target with
  | label name => exact bind (lookUp _ _) fun _ => pure _
  | foreign value => exact pure _

theorem resolveAll (targets : List (Target × Operand α)) :
    Spares (resolveAll targets) := by
  induction targets with
  | nil => exact pure _
  | cons first rest induction =>
      exact bind (resolve _) fun _ => bind induction fun _ => pure _

theorem dereference (reference : Reference) :
    Spares (dereference reference : Action α Referent) := by
  cases reference with
  | ofVariable label => exact bind (lookUp _ _) fun _ => pure _
  | ofConstraint label => exact bind (lookUp _ _) fun _ => pure _
  | foreign value => exact pure _

theorem dereferenceAll (references : List Reference) :
    Spares (dereferenceAll references : Action α (List Referent)) := by
  induction references with
  | nil => exact pure _
  | cons reference rest induction =>
      refine bind (dereference reference) fun referent => ?_
      have later : Spares (do
          return referent :: (← Action.dereferenceAll rest) :
          Action α (List Referent)) :=
        bind induction fun _ => pure _
      split
      · split
        · exact bind (throw (by simp)) fun _ => later
        · exact later
      · exact later

theorem isActive (subscription : Subscription) :
    Spares (isActive subscription : Action α Bool) :=
  bind (solver _) fun _ => pure _

theorem bindConstraint (label : Option String) (handle : ConstraintHandle) :
    Spares (bindConstraint label handle : Action α Unit) := by
  cases label with
  | none => exact pure ()
  | some label =>
      simp only [Action.bindConstraint]
      exact relabel _

theorem bindSubscription (label : Option String) (subscription : Subscription) :
    Spares (bindSubscription label subscription : Action α Unit) := by
  cases label with
  | none => exact pure ()
  | some label =>
      simp only [Action.bindSubscription]
      exact relabel _

theorem askVariable (handle : VariableHandle) (query : VariableQuery) :
    Spares (Action.askVariable handle query : Action α (Reply α)) := by
  refine consult _ fun solver => ?_
  have live := solver.variableAt_ne_entriesNotFinite handle
  cases query with
  | name | value | isLocked => exact map_ne live _
  | doesExist => simp
  | describe =>
      dsimp only
      split <;> simp

variable [Scalar α]

theorem evaluate (context : Option α) (operand : Operand α) :
    Spares (evaluate context operand) := by
  unfold Action.evaluate
  split
  · exact pure _
  · exact bind (lookUp _ _) fun handle => bind
      (consult _ fun solver => solver.variableAt_ne_entriesNotFinite handle)
      fun _ => pure _
  · split
    · exact pure _
    · exact throw (by simp)

theorem collectTerms (context : Option α)
    (targets : List (Argument × Operand α)) :
    ∀ pairs, Spares (collectTerms context pairs targets) := by
  induction targets with
  | nil => exact fun pairs => pure pairs
  | cons first rest induction =>
      intro pairs
      refine bind (evaluate context _) fun value => ?_
      dsimp only
      split
      · split
        · exact bind (throw (by simp)) fun _ => induction _
        · exact induction _
      · exact induction _

theorem askConstraint (handle : ConstraintHandle) (query : ConstraintQuery) :
    Spares (Action.askConstraint handle query : Action α (Reply α)) := by
  refine consult _ fun solver => ?_
  have present := solver.constraintAt_ne_entriesNotFinite handle
  cases query with
  | sum | terms | evaluate | residual => exact map_ne present _
  | support =>
      refine bind_ne present fun constraint => ?_
      split
      · exact pure_ne _ _
      · exact bind_ne (Settings.toleranceFor_ne_entriesNotFinite _ _) fun _ =>
          pure_ne _ _
  | isSatisfied =>
      refine bind_ne present fun constraint => bind_ne ?_ fun _ => pure_ne _ _
      exact map_ne (Settings.toleranceFor_ne_entriesNotFinite _ _) _
  | doesExist => simp
  | describe =>
      dsimp only
      split <;> simp

theorem coefficient (handle : ConstraintHandle) (argument : Argument) :
    Spares (Action.coefficient handle argument : Action α α) := by
  refine consult _ fun solver => ?_
  refine bind_ne (solver.checkVariable_ne_entriesNotFinite argument)
    fun id => ?_
  exact bind_ne (solver.constraintAt_ne_entriesNotFinite handle)
    fun constraint => pure_ne _ _

end Spares

end Action

variable [Scalar α]

/-! ## Worlds -/

namespace World

variable {world before after : World α} {id : SolverId} {solver : Solver α}

/-- All numbers in constraints are finite. -/
def StoresFinite (world : World α) : Prop :=
  world.Each fun _ solver => solver.StoresFinite

/-- Solvers are coherent, and the values that they have put off are finite. -/
structure Sifted (world : World α) : Prop where
  coherent : world.Coherent
  queues : world.Each fun _ solver => solver.QueuesFinite

theorem sifted_empty : (World.empty : World α).Sifted :=
  ⟨fun _ _ found => (nomatch found), fun _ _ found => (nomatch found)⟩

theorem Sifted.of_like (sifted : before.Sifted) (like : before.Like after) :
    after.Sifted :=
  ⟨Each.of_like sifted.coherent like, Each.of_like sifted.queues like⟩

theorem Sifted.addSolver (sifted : world.Sifted) (settings : Settings α) :
    (world.addSolver settings).Sifted :=
  ⟨Each.addSolver sifted.coherent fun id => Solver.coherent_empty id _,
    Each.addSolver sifted.queues fun _ _ member => nomatch member⟩

theorem Sifted.mark {change : Solver α → Solver α} (sifted : world.Sifted)
    (same : ∀ solver : Solver α, solver.SameContents (change solver))
    (queue : ∀ solver : Solver α, (change solver).deferred ⊆ solver.deferred) :
    (world.change id change).Sifted := by
  constructor
  · exact sifted.coherent.change fun solver coherent =>
      coherent.of_sameContents (same solver)
  · exact Each.change sifted.queues (fun _ _ _ holds => holds)
        fun solver _ holds item member =>
      holds item (queue solver member)

theorem Sifted.adopt {draft : Draft α} (sifted : world.Sifted)
    (found : world.solvers[id]? = some solver)
    (coherent : solver.Coherent → draft.solver.Coherent)
    (queues : solver.QueuesFinite → draft.solver.QueuesFinite) :
    (world.adopt id draft).Sifted :=
  ⟨sifted.coherent.adopt found coherent,
    Each.adopt sifted.queues found (fun _ _ _ holds => holds) queues⟩

theorem StoresFinite.of_mark {change : Solver α → Solver α}
    (stores : (world.change id change).StoresFinite)
    (same : ∀ solver : Solver α, solver.SameContents (change solver)) :
    world.StoresFinite := by
  intro other solver found
  by_cases isIt : id = other
  · subst isIt
    have changed := stores _ _ (getElem?_change_self change found)
    exact changed.of_constraints (same solver).constraints.symm
  · refine stores other solver ?_
    rw [getElem?_change_of_ne change isIt]
    exact found

theorem not_storesFinite_adopt {draft : Draft α}
    (found : world.solvers[id]? = some solver)
    (stray : ¬draft.solver.StoresFinite) :
    ¬(world.adopt id draft).StoresFinite :=
  fun stores => stray (stores _ _ (getElem?_adopt_self draft found))

end World

/-! ## Commands -/

namespace Action

variable {β γ : Type} {before after : World α} {engine : Engine α}

def Blames (action : Action α β) : Prop :=
  ∀ before result after, action.Yields before result after → before.Sifted →
    after.Sifted ∧ (result = .error .entriesNotFinite → ¬after.StoresFinite)

namespace Blames

theorem of_spares {action : Action α β} (spares : Spares action) :
    Blames action := by
  intro before result after yields sifted
  rcases spares before result after yields with ⟨same, other⟩
  refine ⟨⟨?_, ?_⟩, fun failed => absurd failed other⟩
  · intro id solver found
    exact sifted.coherent id solver (same ▸ found)
  · intro id solver found
    exact sifted.queues id solver (same ▸ found)

theorem bind {action : Action α β} {next : β → Action α γ}
    (first : Blames action) (later : ∀ value, Blames (next value)) :
    Blames (action >>= next) := by
  intro before result after yields sifted
  rcases yields_bind.mp yields with ⟨failure, failed, rfl⟩
    | ⟨value, middle, done, rest⟩
  · rcases first _ _ _ failed sifted with ⟨stillSifted, blames⟩
    exact ⟨stillSifted, fun equal =>
      blames (congrArg _ (Except.error.inj equal))⟩
  · exact later value _ _ _ rest (first _ _ _ done sifted).1

theorem looking {action : Action α β} {next : β → Action α γ}
    (first : Spares action) (later : ∀ value, Blames (next value)) :
    Blames (action >>= next) :=
  (of_spares first).bind later

theorem closing {action : Action α β} {next : β → Action α γ}
    (first : Blames action) (later : ∀ value, Spares (next value)) :
    Blames (action >>= next) :=
  first.bind fun value => of_spares (later value)

theorem addSolver (settings : Settings α) : Blames (addSolver settings) := by
  intro before result after yields sifted
  rcases yields_addSolver.mp yields with ⟨rfl, rfl⟩
  exact ⟨sifted.addSolver settings, by simp⟩

theorem update {id : SolverId} {change : Solver α → Solver α}
    (same : ∀ solver : Solver α, solver.SameContents (change solver))
    (queue : ∀ solver : Solver α, (change solver).deferred ⊆ solver.deferred) :
    Blames (Action.update id change) := by
  intro before result after yields sifted
  rcases yields_update.mp yields with ⟨rfl, rfl⟩
  exact ⟨sifted.mark same queue, by simp⟩

variable [FiniteUnits α]

theorem task (id : SolverId) (task : Task α) :
    Blames (Action.edit id task.edit) := by
  intro before result after yields sifted
  rcases yields_edit.mp yields with
    ⟨_, rfl, rfl⟩ | ⟨solver, draft, found, edited, rfl⟩
  · exact ⟨sifted, by simp⟩
  · have adopted := sifted.adopt found (task.edit_coheres _ _ _ edited)
      (task.edit_queuesOn _ _ _ edited)
    refine ⟨adopted, ?_⟩
    rintro rfl
    exact World.not_storesFinite_adopt found
      (Task.edit_blames (sifted.coherent _ _ found) edited)

/-- An edit whose value tells what a task has moved. -/
theorem edit {id : SolverId} {change : Edit α β} (task : Task α)
    (moved : β → List VariableId)
    (isTask : task.edit = change >>= fun value => Pure.pure (moved value)) :
    Blames (edit id change) := by
  intro before result after yields sifted
  rcases yields_edit.mp yields with
    ⟨_, rfl, rfl⟩ | ⟨solver, draft, found, edited, rfl⟩
  · exact ⟨sifted, by simp⟩
  · have asTask : (Action.edit id task.edit).Yields before (result.map moved)
        (before.adopt id draft) := by
      refine edit_of_yields found ?_
      rw [isTask]
      exact Edit.yields_bind_pure.mpr ⟨result, edited, rfl⟩
    rcases Blames.task id task _ _ _ asTask sifted with ⟨stillSifted, blames⟩
    refine ⟨stillSifted, fun failed => blames ?_⟩
    rw [failed]
    rfl

theorem still {id : SolverId} {change : Edit α β} (task : Task α)
    (isStill : task.edit = change.still) : Blames (Action.edit id change) :=
  edit task (fun _ => []) isStill

end Blames

end Action

def Engine.Blames (engine : Engine α) : Prop :=
  ∀ body value, Action.Blames (engine.call body value)

namespace Action

variable {engine : Engine α} {before after : World α} {id : SolverId}
  {result : Ending α}

section Dispatch

variable (blaming : engine.Blames)
include blaming

theorem notify_blames (target : VariableId) :
    Blames (notify engine id target) := by
  intro before result after yields sifted
  rcases notify_turn yields with
    ⟨_, rfl, rfl⟩ | ⟨solver, _, ⟨_, rfl, rfl⟩ | ⟨hook, value, _, call⟩⟩
  · exact ⟨sifted, by simp⟩
  · exact ⟨sifted, by simp⟩
  · have recorded :
        (before.record (.hookCalled id target hook.tag value)).Sifted :=
      ⟨sifted.coherent, sifted.queues⟩
    rcases call with ⟨failure, rfl, failed⟩ | ⟨middle, rfl, rfl, done⟩
    · rcases blaming _ _ _ _ _ failed recorded with ⟨stillSifted, blames⟩
      exact ⟨stillSifted, fun equal =>
        blames (congrArg _ (Except.error.inj equal))⟩
    · rcases blaming _ _ _ _ _ done recorded with ⟨stillSifted, _⟩
      exact ⟨⟨stillSifted.coherent, stillSifted.queues⟩, by simp⟩

theorem notifyAll_blames (targets : List VariableId) :
    Blames (notifyAll engine id targets) := by
  induction targets with
  | nil => exact .of_spares (.pure ())
  | cons target rest induction =>
      exact (notify_blames blaming target).bind fun _ => induction

theorem round_blames (targets : List VariableId) :
    Blames (round engine id targets) := by
  intro before result after yields sifted
  rcases round_cases yields with ⟨_, rfl, rfl⟩ | ⟨_, middle, calls, closing⟩
  · exact ⟨sifted, by simp⟩
  · have begun :
      ((before.record (.roundBegan id targets)).change id fun solver =>
        { solver with dispatching := true }).Sifted := by
      refine World.Sifted.mark ⟨sifted.coherent, sifted.queues⟩
        (fun _ => ⟨rfl, rfl, rfl, rfl⟩) ?_
      exact fun _ => List.Subset.refl _
    rcases notifyAll_blames blaming targets _ _ _ calls begun with
      ⟨stillSifted, blames⟩
    rcases closing with ⟨rfl, rfl⟩ | ⟨failure, rfl, rfl⟩
    · have ended :
          (middle.change id fun solver =>
            { solver with dispatching := false }).Sifted :=
        stillSifted.mark (fun _ => ⟨rfl, rfl, rfl, rfl⟩) fun _ =>
          List.Subset.refl _
      exact ⟨⟨ended.coherent, ended.queues⟩, by simp⟩
    · have ended : (middle.change id fun solver =>
          { solver.dropDeferred with dispatching := false }).Sifted :=
        stillSifted.mark (fun _ => ⟨rfl, rfl, rfl, rfl⟩) fun _ =>
          List.nil_subset _
      refine ⟨⟨ended.coherent, ended.queues⟩, fun failed stores =>
        blames failed ?_⟩
      have stored : (middle.change id fun solver =>
          { solver.dropDeferred with dispatching := false }).StoresFinite :=
            stores
      exact stored.of_mark fun _ => ⟨rfl, rfl, rfl, rfl⟩

theorem serve_blames [FiniteUnits α] {solver : Solver α}
    {work : Edit α (List VariableId)}
    (found : before.solvers[id]? = some solver)
    (next : solver.nextDeferred = some work)
    (yields : (serve engine id work).Yields before result after)
    (sifted : before.Sifted) :
    after.Sifted ∧
    (result = .error .entriesNotFinite → ¬after.StoresFinite) := by
  have taken : ∀ {outcome draft}, work.Yields ⟨solver, []⟩ outcome draft →
      (before.adopt id draft).Sifted := fun edited =>
    sifted.adopt found
      (fun coherent => Solver.coherent_of_nextDeferred coherent next edited)
      fun queues => Solver.queuesFinite_of_nextDeferred queues next edited
  rcases serve_cases found yields with
    ⟨failure, draft, edited, rfl, rfl⟩ | ⟨moved, draft, edited, held⟩
  · refine ⟨taken edited, fun equal => World.not_storesFinite_adopt found ?_⟩
    cases equal
    exact Solver.blames_of_nextDeferred (sifted.coherent _ _ found)
      (sifted.queues _ _ found) next edited
  · exact round_blames blaming moved _ _ _ held (taken edited)

theorem drain_blames [FiniteUnits α] (patience : Nat) :
    ∀ taken, Blames (drain engine id taken patience) := by
  induction patience with
  | zero => exact fun _ _ _ _ yields => absurd yields yields_exhausted
  | succ patience induction =>
      intro taken before result after yields sifted
      rw [drain_succ] at yields
      rcases yields_solver_bind.mp yields with
        ⟨_, rfl, rfl⟩ | ⟨solver, found, rest⟩
      · exact ⟨sifted, by simp⟩
      · cases next : solver.nextDeferred with
        | none =>
            rw [next] at rest
            rcases yields_pure.mp rest with ⟨rfl, rfl⟩
            exact ⟨sifted, by simp⟩
        | some work =>
            simp only [next] at rest
            split at rest
            · rcases yields_throw.mp rest with ⟨rfl, rfl⟩
              exact ⟨sifted, by simp⟩
            · rcases yields_bind.mp rest with ⟨failure, failed, rfl⟩
                | ⟨_, middle, served, later⟩
              · rcases serve_blames blaming found next failed sifted with
                  ⟨stillSifted, blames⟩
                exact ⟨stillSifted, fun equal =>
                  blames (congrArg _ (Except.error.inj equal))⟩
              · exact induction _ _ _ _ later
                  (serve_blames blaming found next served sifted).1

theorem settle_blames [FiniteUnits α] : Blames (settle engine id) := by
  intro before result after yields sifted
  rcases settle_cases yields with
    ⟨_, rfl, rfl⟩ | ⟨solver, _, ⟨_, rfl, rfl⟩ | ⟨_, last, drains, closing⟩⟩
  · exact ⟨sifted, by simp⟩
  · exact ⟨sifted, by simp⟩
  · have begun :
        (before.change id fun solver =>
          { solver with draining := true }).Sifted :=
      sifted.mark (fun _ => ⟨rfl, rfl, rfl, rfl⟩) fun _ => List.Subset.refl _
    rcases drain_blames blaming _ _ _ _ _ drains begun with
      ⟨stillSifted, blames⟩
    rcases closing with ⟨rfl, rfl⟩ | ⟨failure, rfl, rfl⟩
    · refine ⟨stillSifted.mark (fun _ => ⟨rfl, rfl, rfl, rfl⟩) fun _ =>
        List.Subset.refl _, ?_⟩
      simp
    · refine ⟨stillSifted.mark (fun _ => ⟨rfl, rfl, rfl, rfl⟩) fun _ =>
        List.nil_subset _, ?_⟩
      exact fun failed stores =>
        blames failed (stores.of_mark fun _ => ⟨rfl, rfl, rfl, rfl⟩)

theorem announce_blames [FiniteUnits α] (moved : List VariableId) :
    Blames (announce engine id moved) := by
  unfold announce
  split
  · exact .of_spares (.pure ())
  · exact (round_blames blaming moved).bind fun _ => settle_blames blaming

theorem perform_blames [FiniteUnits α] (task : Task α) :
    Blames (perform engine id task.edit) :=
  (Blames.task id task).bind fun moved => announce_blames blaming moved

end Dispatch

section Commands

variable {context : Option α}

theorem newSolver_blames (label : String)
    (autoSolve refusesContradiction : Bool) (tolerance : Option α)
    (cascadeLimit : Int) :
    Blames
      (newSolver label autoSolve refusesContradiction tolerance
        cascadeLimit) := by
  cases tolerance with
  | none => exact .of_spares (.throw (by simp))
  | some value =>
      simp only [newSolver]
      split
      · exact .of_spares (.throw (by simp))
      · split
        · exact .of_spares (.throw (by simp))
        · exact (Blames.addSolver _).closing fun _ =>
            .bind (.relabel _) fun _ => .pure _

theorem changeSetting_blames (id : SolverId) (setting : SettingChange α) :
    Blames (changeSetting context id setting) := by
  have changes : ∀ change : Settings α → Settings α, Blames (do
      update id fun solver => solver.setSettings change
      return (Reply.nothing : Reply α)) := by
    intro change
    have marks :
        Blames (update id fun solver : Solver α => solver.setSettings change) :=
      .update (fun _ => ⟨rfl, rfl, rfl, rfl⟩) fun _ => List.Subset.refl _
    exact marks.closing fun _ => .pure _
  cases setting with
  | autoSolve value => exact changes _
  | refusesContradiction value => exact changes _
  | tolerance operand =>
      exact .looking (.evaluate context operand) fun tolerance => changes _
  | cascadeLimit value => exact changes _

variable [FiniteUnits α]

theorem askSolver_blames (id : SolverId) (query : SolverQuery) :
    Blames (askSolver id query : Action α (Reply α)) := by
  cases query with
  | isOverConstrained =>
      exact (Blames.still .isOverConstrained rfl).closing fun _ => .pure _
  | isUnderConstrained =>
      exact (Blames.still .isUnderConstrained rfl).closing fun _ => .pure _
  | freeVariables =>
      exact (Blames.still .freeVariables rfl).closing fun _ => .pure _
  | residuals => exact .of_spares (.bind (.solver id) fun _ => .pure _)
  | describe => exact .of_spares (.bind (.solver id) fun _ => .pure _)
  | autoSolve => exact .of_spares (.bind (.solver id) fun _ => .pure _)
  | refusesContradiction =>
      exact .of_spares (.bind (.solver id) fun _ => .pure _)
  | tolerance =>
      refine .of_spares (.bind (.solver id) fun solver => ?_)
      split
      · exact .pure _
      · exact .throw (by simp)
  | cascadeLimit => exact .of_spares (.bind (.solver id) fun _ => .pure _)

variable (blaming : engine.Blames)
include blaming

theorem addConstraint_blames (id : SolverId)
    (terms : List (Argument × Option α)) (total : Option α)
    (label : Option String) :
    Blames (addConstraint engine id terms total label) := by
  refine (Blames.edit (.addConstraint terms total) Prod.snd rfl).bind
    fun added => ?_
  exact (announce_blames blaming added.2).closing fun _ =>
    .bind (.bindConstraint _ _) fun _ => .pure _

theorem answering_blames (id : SolverId) (task : Task α) (reply : Reply α) :
    Blames (do
      perform engine id task.edit
      return reply) :=
  (perform_blames blaming task).closing fun _ => .pure reply

theorem operate_blames (operation : Operation α) :
    Blames (operate engine context operation) := by
  have name : ∀ {β : Type} (table : Labels α → Table String β) (label : String),
      Spares (lookUp table label) := .lookUp
  cases operation with
  | newSolver label autoSolve refusesContradiction operand cascadeLimit =>
      exact .looking (.evaluate context operand) fun _ =>
        newSolver_blames _ _ _ _ _
  | change label setting =>
      exact .looking (name _ _) fun id => changeSetting_blames id setting
  | askSolver label query =>
      exact .looking (name _ _) fun id => askSolver_blames id query
  | solve label =>
      exact .looking (name _ _) fun id => answering_blames blaming id .solve _
  | addVariable label title name' operand =>
      refine .looking (name _ _) fun id =>
        .looking (.evaluate context operand) fun value => ?_
      exact (Blames.still (.addVariable _ value) rfl).closing fun _ =>
        .bind (.relabel _) fun _ => .pure _
  | addConstraint solver label targets operand =>
      refine .looking (.resolveAll targets) fun targets =>
        .looking (name _ _) fun id => ?_
      refine .looking (.collectTerms _ _ _) fun terms =>
        .looking (.evaluate context operand) ?_
      exact fun total => addConstraint_blames blaming id terms total label
  | checkConstraint label subject =>
      refine .of_spares (.bind (name _ _) fun handle =>
        .bind (name _ _) fun _ => ?_)
      exact .bind (.consult _ fun solver =>
        solver.constraintAt_ne_entriesNotFinite handle) fun _ => .pure _
  | newBuilder solver label =>
      exact .of_spares (.bind (name _ _) fun _ => .bind (.relabel _) fun _ =>
        .pure _)
  | builderTerm label target operand =>
      refine .of_spares (.bind (name _ _) fun _ =>
        .bind (.resolve target) fun argument => ?_)
      refine .bind (.evaluate context operand) fun _ =>
          .bind (.consult _ fun solver =>
        solver.checkVariable_ne_entriesNotFinite argument) fun _ => ?_
      dsimp only
      split
      · exact .bind (.relabel _) fun _ => .pure _
      · exact .pure _
  | builderSum label operand =>
      refine .of_spares (.bind (name _ _) fun _ =>
        .bind (.evaluate context operand) fun _ => ?_)
      exact .bind (.relabel _) fun _ => .pure _
  | build label constraint =>
      refine .looking (name _ _) fun builder => ?_
      split
      · exact .of_spares (.throw (by simp))
      · exact .looking (.relabel _) fun _ =>
          addConstraint_blames blaming _ _ _ _
  | variableHandle solver id label =>
      exact .of_spares (.bind (name _ _) fun _ => .bind (.relabel _) fun _ =>
        .pure _)
  | constraintHandle solver id label =>
      exact .of_spares (.bind (name _ _) fun _ =>
        .bind (.bindConstraint _ _) fun _ => .pure _)
  | askVariable subject query =>
      exact .of_spares (.bind (name _ _) fun handle =>
        .askVariable handle query)
  | valueEquals left right operand =>
      refine .of_spares (.bind (name _ _) fun left =>
        .bind (name _ _) fun right => ?_)
      have live : ∀ handle : VariableHandle,
          Spares (consult handle.solver fun solver : Solver α =>
            solver.variableAt handle) :=
        fun handle => .consult _ fun solver =>
          solver.variableAt_ne_entriesNotFinite handle
      refine .bind (.evaluate context operand) fun tolerance =>
        .bind (live left) fun _ => ?_
      refine .bind (live right) fun _ => ?_
      cases tolerance with
      | some tolerance => exact .pure _
      | none =>
          exact .bind (.consult _ fun solver =>
            Settings.toleranceFor_ne_entriesNotFinite _ _) fun _ => .pure _
  | setValue subject operand style =>
      refine .looking (name _ _) fun handle =>
        .looking (.evaluate context operand) fun value => ?_
      exact answering_blames blaming _ (.setValue handle value) _
  | lock subject =>
      exact .looking (name _ _) fun handle =>
        answering_blames blaming _ (.lock handle) _
  | unlock subject =>
      exact .looking (name _ _) fun handle =>
        (Blames.still (.unlock handle) rfl).closing fun _ => .pure _
  | lockConstraint subject label =>
      refine .of_spares (.bind (name _ _) fun handle =>
          .bind (.consult _ fun solver =>
        solver.variableAt_ne_entriesNotFinite handle) fun contents => ?_)
      split
      · exact .pure _
      · exact .bind (.bindConstraint _ _) fun _ => .pure _
  | deleteVariable subject =>
      exact .looking (name _ _) fun handle =>
        (Blames.still (.deleteVariable handle) rfl).closing fun _ => .pure _
  | sameSolver solver reference =>
      refine .of_spares (.bind (.dereference _) fun _ =>
        .bind (name _ _) fun _ => ?_)
      split
      · exact .pure _
      · exact .pure _
      · exact .throw (by simp)
  | sameHandle left right =>
      exact .of_spares (.bind (.dereference _) fun _ =>
        .bind (.dereference _) fun _ => .pure _)
  | countHandles references =>
      exact .of_spares (.bind (.dereferenceAll _) fun _ => .pure _)
  | cancel label =>
      exact .looking (name _ _) fun subscription =>
        (Blames.still (.forget subscription.id subscription.hook) rfl).closing
          fun _ => .pure _
  | subscriptionStatus label =>
      exact .of_spares (.bind (name _ _) fun _ => .bind (.isActive _) fun _ =>
        .pure _)
  | raise alarm text => exact .of_spares (.throw (by simp))
  | askConstraint subject query =>
      exact .of_spares (.bind (name _ _) fun handle =>
        .askConstraint handle query)
  | coefficient subject target =>
      exact .of_spares (.bind (name _ _) fun handle =>
          .bind (.resolve target) fun argument =>
        .bind (.coefficient handle argument) fun _ => .pure _)
  | contains subject target =>
      refine .of_spares (.bind (name _ _) fun handle =>
        .bind (.resolve target) fun argument => ?_)
      refine .bind (.coefficient handle argument) fun _ => ?_
      exact .bind (.consult _ fun solver =>
        Settings.toleranceFor_ne_entriesNotFinite _ _) fun _ => .pure _
  | setTerm subject target operand =>
      refine .looking (name _ _) fun handle =>
        .looking (.resolve target) fun argument => ?_
      refine .looking (.evaluate context operand) fun value => ?_
      exact answering_blames blaming _ (.setTerm handle argument value) _
  | addTerm subject target operand =>
      refine .looking (name _ _) fun handle =>
        .looking (.resolve target) fun argument => ?_
      refine .looking (.evaluate context operand) fun value => ?_
      exact answering_blames blaming _ (.addTerm handle argument value) _
  | removeTerm subject target =>
      refine .looking (name _ _) fun handle =>
        .looking (.resolve target) fun argument => ?_
      exact answering_blames blaming _ (.removeTerm handle argument) _
  | setSum subject operand style =>
      refine .looking (name _ _) fun handle =>
        .looking (.evaluate context operand) fun total => ?_
      exact answering_blames blaming _ (.setSum handle total) _
  | deleteConstraint subject =>
      exact .looking (name _ _) fun handle =>
        (Blames.still (.deleteConstraint handle) rfl).closing fun _ => .pure _

omit blaming in
theorem observe_blames (handle : VariableHandle) (hook : Option HookId)
    (label : Option String) :
    Blames (observe handle hook label : Action α (Reply α)) :=
  (Blames.still (.observe handle hook) rfl).closing fun _ =>
    .bind (.bindSubscription _ _) fun _ => .pure _

end Commands

theorem setAuto_blames (id : SolverId) (autoSolve : Bool) :
    Blames (update id fun solver : Solver α => solver.setAuto autoSolve) :=
  .update (fun _ => ⟨rfl, rfl, rfl, rfl⟩) fun _ => List.Subset.refl _

theorem batch_blames [FiniteUnits α] {context : Option α}
    (blaming : engine.Blames) (name : String) {body : Script α}
    (script : Blames (executeScript engine context body)) :
    Blames (execute engine context (.batch name body)) := by
  refine .looking (.lookUp _ _) fun id => .looking (.solver id) fun solver => ?_
  refine (setAuto_blames id false).bind fun _ => ?_
  intro before result after yields sifted
  rcases yields_outcome_bind.mp yields with ⟨outcome, middle, ran, closing⟩
  rcases script _ _ _ ran sifted with ⟨stillSifted, blames⟩
  have restored :
      (middle.change id fun other =>
        other.setAuto solver.settings.autoSolve).Sifted :=
    stillSifted.mark (fun _ => ⟨rfl, rfl, rfl, rfl⟩) fun _ => List.Subset.refl _
  cases outcome with
  | error failure =>
      rcases yields_throw.mp closing with ⟨rfl, rfl⟩
      refine ⟨restored, fun equal stores =>
        blames (congrArg _ (Except.error.inj equal)) ?_⟩
      exact stores.of_mark fun _ => ⟨rfl, rfl, rfl, rfl⟩
  | ok value =>
      simp only [yields_update_bind, ofOutcome, yields_pure_bind] at closing
      split at closing
      · exact answering_blames blaming id .solve _ _ _ _ closing restored
      · rcases yields_pure.mp closing with ⟨rfl, rfl⟩
        exact ⟨restored, by simp⟩

mutual

theorem execute_blames [FiniteUnits α] (blaming : engine.Blames)
    (context : Option α) (command : Command α) :
    Blames (execute engine context command) := by
  cases command with
  | operation operation => exact operate_blames blaming operation
  | defineHook label body =>
      exact .of_spares (.bind (.addHook label body) fun _ =>
        .bind (.relabel _) fun _ => .pure _)
  | observe subject listener label =>
      refine .looking (.lookUp _ _) fun handle => ?_
      cases listener with
      | nobody => exact observe_blames handle none label
      | label name =>
          exact .looking (.lookUp _ _) fun hook => observe_blames handle _ label
      | foreign kind => exact .of_spares (.throw (by simp))
  | observeInline subject body label =>
      refine .looking (.lookUp _ _) fun handle =>
        .looking (.addHook subject body) fun hook => ?_
      exact observe_blames handle _ label
  | batch name body =>
      exact batch_blames blaming name
        (executeScript_blames blaming context body)
termination_by structural command

theorem executeScript_blames [FiniteUnits α] (blaming : engine.Blames)
    (context : Option α) (script : Script α) :
    Blames (executeScript engine context script) := by
  intro before result after yields sifted
  cases script with
  | done =>
      rcases yields_pure.mp yields with ⟨rfl, rfl⟩
      exact ⟨sifted, by simp⟩
  | next command guarded rest =>
      rw [executeScript, yields_outcome_bind] at yields
      rcases yields with ⟨outcome, middle, ran, later⟩
      rcases execute_blames blaming context command _ _ _ ran sifted with
        ⟨stillSifted, blames⟩
      rw [yields_record_bind] at later
      have recorded : (middle.record (.commandEnded command outcome)).Sifted :=
        ⟨stillSifted.coherent, stillSifted.queues⟩
      cases guarded with
      | true =>
          exact executeScript_blames blaming context rest _ _ _ later recorded
      | false =>
          cases outcome with
          | error failure =>
              rcases yields_throw.mp later with ⟨rfl, rfl⟩
              exact ⟨recorded, fun equal =>
                blames (congrArg _ (Except.error.inj equal))⟩
          | ok reply =>
              exact executeScript_blames blaming context rest _ _ _ later
                recorded
termination_by structural script

end

end Action

theorem Engine.ofDepth_blames [FiniteUnits α] (patience depth : Nat) :
    (Engine.ofDepth patience depth : Engine α).Blames := by
  induction depth with
  | zero =>
      intro body value before result after yields
      exact absurd yields Action.yields_exhausted
  | succ depth induction =>
      exact fun body value =>
        Action.executeScript_blames induction (some value) body

end LiveLinear
