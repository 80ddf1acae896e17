import LiveLinear.Proofs.Session.Calling
import LiveLinear.Proofs.Session.Hearing
import LiveLinear.Proofs.Session.Reached

namespace LiveLinear

/-! # How stale an observer may be

A hook that is registered and stays so is called whenever its variable is
announced. So its variable is never further from the value that the hook was
called with last than the tolerance for each solution that has been written
since. -/

/-! ## Dispatch -/

namespace Action

def Follows {β : Type} (watch : Watch) (tolerance : ℚ) (action : Action ℚ β) :
    Prop :=
  ∀ before value after, action.Yields before (.ok value) after →
    World.Follows watch tolerance False before after False

end Action

def Engine.Follows (watch : Watch) (tolerance : ℚ) (engine : Engine ℚ) : Prop :=
  ∀ body value, (engine.call body value).Follows watch tolerance

namespace Action

variable {β γ : Type} {watch : Watch} {tolerance : ℚ} {engine : Engine ℚ}
  {before after : World ℚ} {id : SolverId} {owed : Prop}

section Dispatch

variable (follows : engine.Follows watch tolerance)
include follows

/-- When its turn has come, nothing is owing to the hook of the watched
variable. -/
theorem notify_follows {target : VariableId}
    (yields : (notify engine id target).Yields before (.ok ()) after) :
    World.Follows watch tolerance owed before after
      (owed ∧ ¬(id = watch.solver ∧ target = watch.id)) := by
  rcases notify_turn yields with ⟨_, impossible, _⟩ |
    ⟨solver, found, ⟨nobody, _, rfl⟩ | ⟨hook, value, listens, call⟩⟩
  · cases impossible
  · by_cases isWatched : id = watch.solver ∧ target = watch.id
    · rcases isWatched with ⟨rfl, rfl⟩
      refine ⟨[], rfl, fun _ _ covers guards =>
        ⟨covers, guards, fun hearing _ => .inr ?_⟩⟩
      intro same contents isSame present
      rw [found] at isSame
      cases isSame
      cases (guards.of_listener found nobody).symm.trans present
    · exact (World.Follows.refl _).mono (fun isOwed => isOwed) fun isOwed =>
        ⟨isOwed, isWatched⟩
  · rcases call with ⟨_, impossible, _⟩ | ⟨middle, _, rfl, called⟩
    · cases impossible
    · have called := follows _ _ _ _ _ called
      have returned : ∀ {owed : Prop}, World.Follows watch tolerance owed middle
          (middle.record (.hookReturned id target)) owed :=
        .record (fun _ => rfl) fun _ => rfl
      by_cases isWatched : id = watch.solver ∧ target = watch.id
      · rcases isWatched with ⟨rfl, rfl⟩
        have told : World.Follows watch tolerance owed before
            (before.record (.hookCalled watch.solver watch.id hook.tag value))
            False :=
          .hookCalled found listens
        exact ((told.trans called).trans returned).mono (fun isOwed => isOwed)
          False.elim
      · have told : World.Follows watch tolerance owed before
            (before.record (.hookCalled id target hook.tag value)) owed :=
          .record (fun _ => if_neg isWatched) fun _ => rfl
        exact ((told.trans called.frame).trans returned).mono
          (fun isOwed => isOwed) fun isOwed => ⟨isOwed, isWatched⟩

theorem notifyAll_follows {targets : List VariableId} :
    ∀ {before : World ℚ},
      (notifyAll engine id targets).Yields before (.ok ()) after →
      World.Follows watch tolerance (id = watch.solver ∧ watch.id ∈ targets)
        before after False := by
  induction targets with
  | nil =>
      intro before yields
      rw [(yields_pure.mp yields).2]
      exact (World.Follows.refl before).mono (fun isOwed => nomatch isOwed.2)
        fun never => never
  | cons target rest induction =>
      intro before yields
      rcases yields_bind_ok.mp yields with ⟨_, middle, first, later⟩
      refine ((notify_follows follows first).trans
        ((induction later).mono ?_ fun never => never))
      rintro ⟨⟨isSolver, isTarget⟩, other⟩
      refine ⟨isSolver, (List.mem_cons.mp isTarget).resolve_left fun same => ?_⟩
      exact other ⟨isSolver, same.symm⟩

/-- A round leaves nothing owing of what it announces. -/
theorem round_follows {targets : List VariableId}
    (yields : (round engine id targets).Yields before (.ok ()) after) :
    World.Follows watch tolerance (id = watch.solver ∧ watch.id ∈ targets)
      before after False := by
  rcases round_cases yields with ⟨rfl, _, rfl⟩ | ⟨_, middle, calls, closing⟩
  · exact (World.Follows.refl _).mono (fun isOwed => nomatch isOwed.2)
      fun never => never
  · rcases closing with ⟨_, rfl⟩ | ⟨_, impossible, _⟩
    · have began : ∀ {owed : Prop}, World.Follows watch tolerance owed before
          (before.record (.roundBegan id targets)) owed :=
        .record (fun _ => rfl) fun _ => rfl
      have held :
          World.Follows watch tolerance (id = watch.solver ∧ watch.id ∈ targets)
          (before.record (.roundBegan id targets))
          (middle.change id fun solver => { solver with dispatching := false })
          False :=
        (notifyAll_follows follows calls).around (fun _ => ⟨rfl, rfl, rfl⟩)
          fun _ => ⟨rfl, rfl, rfl⟩
      exact (began.trans held).trans (.record (fun _ => rfl) fun _ => rfl)
    · cases impossible

theorem drain_follows (patience : Nat) :
    ∀ {taken : Nat} {before : World ℚ},
      (drain engine id taken patience).Yields before (.ok ()) after →
      World.Follows watch tolerance False before after False := by
  induction patience with
  | zero => exact fun yields => absurd yields yields_exhausted
  | succ patience induction =>
      intro taken before yields
      rw [drain_succ] at yields
      rcases yields_solver_bind.mp yields with
        ⟨_, impossible, _⟩ | ⟨solver, found, rest⟩
      · cases impossible
      · cases next : solver.nextDeferred with
        | none =>
            rw [next] at rest
            rw [(yields_pure.mp rest).2]
            exact .refl before
        | some work =>
            simp only [next] at rest
            split at rest
            · cases (yields_throw.mp rest).1
            · rcases yields_bind_ok.mp rest with ⟨_, middle, served, later⟩
              rcases serve_cases found served with ⟨_, _, _, impossible, _⟩ |
                ⟨moved, draft, edited, held⟩
              · cases impossible
              · have adopts :
                    World.Follows watch tolerance False before
                      (before.adopt id draft)
                      (id = watch.solver ∧ watch.id ∈ moved) :=
                  .adopt found fun _ =>
                    Solver.trailing_of_nextDeferred next _ _ _ edited
                exact (adopts.trans (round_follows follows held)).trans
                  (induction later)

theorem settle_follows
    (yields : (settle engine id).Yields before (.ok ()) after) :
    World.Follows watch tolerance False before after False := by
  rcases settle_cases yields with ⟨_, impossible, _⟩ |
    ⟨solver, found, ⟨_, _, rfl⟩ | ⟨_, last, drains, closing⟩⟩
  · cases impossible
  · exact .refl _
  · rcases closing with ⟨_, rfl⟩ | ⟨_, impossible, _⟩
    · exact (drain_follows follows engine.patience drains).around
        (fun _ => ⟨rfl, rfl, rfl⟩) fun _ => ⟨rfl, rfl, rfl⟩
    · cases impossible

theorem announce_follows {moved : List VariableId}
    (yields : (announce engine id moved).Yields before (.ok ()) after) :
    World.Follows watch tolerance (id = watch.solver ∧ watch.id ∈ moved) before
      after False := by
  unfold announce at yields
  cases moved with
  | nil =>
      rw [(yields_pure.mp yields).2]
      exact (World.Follows.refl before).mono (fun isOwed => nomatch isOwed.2)
        fun never => never
  | cons target rest =>
      simp only [List.isEmpty_cons, Bool.false_eq_true, if_false] at yields
      rcases yields_bind_ok.mp yields with ⟨_, middle, first, later⟩
      exact (round_follows follows first).trans (settle_follows follows later)

theorem perform_follows {task : Task ℚ}
    (spares : id = watch.solver → task.Spares watch.id)
    (yields : (perform engine id task.edit).Yields before (.ok ()) after) :
    World.Follows watch tolerance False before after False := by
  rcases yields_bind_ok.mp yields with ⟨moved, middle, done, later⟩
  rcases yields_edit.mp done with
    ⟨_, impossible, _⟩ | ⟨solver, draft, found, edited, rfl⟩
  · cases impossible
  · have adopts :
        World.Follows watch tolerance False before (before.adopt id draft)
          (id = watch.solver ∧ watch.id ∈ moved) :=
      .adopt found fun isWatched =>
        task.edit_trailing (spares isWatched) _ _ _ edited
    exact adopts.trans (announce_follows follows later)

end Dispatch

theorem edit_follows {task : Task ℚ} {edit : Edit ℚ β} {value : β}
    (still : task.edit = edit.still)
    (spares : id = watch.solver → task.Spares watch.id)
    (yields : (Action.edit id edit).Yields before (.ok value) after) :
    World.Follows watch tolerance False before after False := by
  rcases yields_edit.mp yields with
    ⟨_, impossible, _⟩ | ⟨solver, draft, found, edited, rfl⟩
  · cases impossible
  · have edited : task.edit.Yields ⟨solver, []⟩ (.ok []) draft :=
      still ▸ Edit.yields_still.mpr ⟨.ok value, edited, rfl⟩
    have adopts :
        World.Follows watch tolerance False before (before.adopt id draft)
          (id = watch.solver ∧ watch.id ∈ []) :=
      .adopt found fun isWatched =>
        task.edit_trailing (spares isWatched) _ _ _ edited
    exact adopts.mono (fun never => never) fun tells => nomatch tells.2

theorem announceConstraint_follows (follows : engine.Follows watch tolerance)
    {terms : List (Argument × Option ℚ)} {total : Option ℚ}
    {constraint : ConstraintId}
    (yields : (announceConstraint engine id terms total).Yields before
      (.ok constraint) after) :
    World.Follows watch tolerance False before after False := by
  rcases yields_bind_ok.mp yields with ⟨⟨fresh, moved⟩, middle, done, later⟩
  rcases yields_edit.mp done with
    ⟨_, impossible, _⟩ | ⟨solver, draft, found, edited, rfl⟩
  · cases impossible
  · have adopts :
        World.Follows watch tolerance False before (before.adopt id draft)
          (id = watch.solver ∧ watch.id ∈ moved) :=
      .adopt found fun _ => Edit.addConstraint_trailing terms total _ _ _
        (Task.yields_addConstraint.mpr ⟨_, edited, rfl⟩)
    rcases yields_bind_ok.mp later with ⟨_, last, told, rest⟩
    rw [(yields_pure.mp rest).2]
    exact adopts.trans (announce_follows follows told)

end Action

/-! ## Commands -/

def Command.mayMeddle : Command α → Bool
  | .operation (.change _ (.tolerance _)) | .operation (.cancel _) => true
  | command => command.binds

theorem Aliases.heed_of_plain {watch : Watch} {aliases : Aliases}
    {command : Command α} (plain : command.mayMeddle = false) :
    aliases.heed watch command = aliases := by
  cases command with
  | operation operation => cases operation <;> first | rfl | cases plain
  | batch | defineHook => rfl
  | observe | observeInline => cases plain

theorem Command.binds_of_plain {command : Command α}
    (plain : command.mayMeddle = false) :
    command.binds = false := by
  unfold mayMeddle at plain
  split at plain
  · cases plain
  · cases plain
  · exact plain

theorem Command.Asks.spares {command : Command ℚ} {id : SolverId}
    {task : Task ℚ} (asks : command.Asks id task)
    (plain : command.mayMeddle = false) (target : VariableId) :
    task.Spares target := by
  cases asks with
  | observe | cancel => cases plain
  | _ => trivial

namespace Action

variable {β : Type} {watch : Watch} {tolerance : ℚ} {engine : Engine ℚ}
  {before after : World ℚ} {id : SolverId}

/-- What a command does that cannot meddle, and is no batch, is heard of. -/
theorem Shaped.follows {context : Option ℚ} {command : Command ℚ}
    {action : Action ℚ β} (shaped : Shaped engine context command action)
    (follows : engine.Follows watch tolerance)
    (plain : command.mayMeddle = false) : Follows watch tolerance action := by
  have aside : ∀ {β : Type} {action : Action ℚ β} {before after : World ℚ}
      {result : Except (Failure ℚ) β}, Aside (command.binds = true) action →
        action.Yields before result after →
          World.Follows watch tolerance False before after False := by
    intro β action before after result quiet yields
    have rebinds := quiet.rebinds yields
    refine .rebinds ⟨rebinds.toLike, fun _ => rebinds.names ?_⟩
    rw [Command.binds_of_plain plain]
    exact Bool.false_ne_true
  induction shaped with
  | throw failure =>
      intro before value after yields
      cases (yields_throw.mp yields).1
  | aside _ _ quiet => exact fun before value after yields => aside quiet yields
  | looking quiet _ induction =>
      intro before value after yields
      rcases yields_bind_ok.mp yields with ⟨_, middle, done, later⟩
      exact (aside quiet done).trans (induction _ _ _ _ later)
  | closing _ closes induction =>
      intro before value after yields
      rcases yields_bind_ok.mp yields with ⟨_, middle, done, later⟩
      exact (induction _ _ _ done).trans (aside (closes _).aside later)
  | founding isCommand founds =>
      rcases founds.asked with ⟨_, _, rfl, _⟩
      subst isCommand
      cases plain
  | changing isCommand makes =>
      intro before value after yields
      rw [(yields_update.mp yields).2]
      cases makes with
      | tolerance =>
          subst isCommand
          cases plain
      | autoSolve | refusesContradiction | cascadeLimit =>
          exact .change fun _ _ => ⟨rfl, rfl, rfl⟩
  | defining isCommand =>
      intro before value after yields
      rw [(yields_addHook.mp yields).2]
      exact .addHook _ _
  | observing isCommand =>
      subst isCommand
      cases plain
  | editing asks still =>
      exact fun _ _ _ yields =>
        edit_follows still (fun _ => asks.spares plain _) yields
  | performing asks =>
      exact fun _ _ _ yields =>
        perform_follows follows (fun _ => asks.spares plain _) yields
  | adding _ =>
      exact fun _ _ _ yields => announceConstraint_follows follows yields

section Meddling

-- Whether one of the other commands meddles depends on what its labels stand
-- for, and some of them bind labels, so that each of them is taken apart.

variable {context : Option ℚ} {reply : Reply ℚ} {command : Command ℚ}

/-- A new solver is not the one of the watched variable. -/
theorem newSolver_follows {label : String}
    {autoSolve refusesContradiction : Bool} {operand : Operand ℚ}
    {given : Option ℚ} {cascadeLimit : Int}
    (isCommand : command = .operation
      (.newSolver label autoSolve refusesContradiction operand cascadeLimit))
    (guards : before.Guards watch tolerance)
    (yields : (newSolver label autoSolve refusesContradiction given
      cascadeLimit).Yields before (.ok reply) after) :
    World.Follows watch tolerance False before
      (after.record (.commandEnded command (.ok reply))) False := by
  subst isCommand
  cases given with
  | none => cases (yields_throw.mp yields).1
  | some number =>
      simp only [newSolver] at yields
      split at yields
      · cases (yields_throw.mp yields).1
      · split at yields
        · cases (yields_throw.mp yields).1
        · rw [yields_addSolver_bind] at yields
          rcases yields_bind_ok.mp yields with ⟨_, middle, bound, rest⟩
          rw [(yields_pure.mp rest).2, (yields_relabel.mp bound).2]
          rcases guards with ⟨solver, found, _⟩
          have inRange := (List.getElem?_eq_some_iff.mp found).1
          exact (World.Follows.addSolver _).trans
            (.bound fun _ covers => covers.dropSolver (Nat.ne_of_gt inRange))

/-- A new variable is not the one that is watched. -/
theorem addVariable_follows {name : String} {title : Option String}
    {operand : Operand ℚ} {number : Option ℚ} {label : String}
    (isCommand : command = .operation (.addVariable name label title operand))
    (guards : before.Guards watch tolerance)
    (yields : (do
      let fresh ← Action.edit id (Edit.addVariable title number)
      bindVariable label ⟨id, fresh⟩
      return .variableId fresh : Action ℚ (Reply ℚ)).Yields before (.ok reply)
        after) :
    World.Follows watch tolerance False before
      (after.record (.commandEnded command (.ok reply))) False := by
  subst isCommand
  rcases yields_bind_ok.mp yields with ⟨fresh, middle, done, later⟩
  rcases yields_bind_ok.mp later with ⟨_, last, bound, rest⟩
  rw [(yields_pure.mp rest).2, (yields_relabel.mp bound).2]
  have still : (Task.addVariable title number).edit =
      (Edit.addVariable title number).still := rfl
  have added : World.Follows watch tolerance False before middle False :=
    edit_follows still (fun _ => trivial) done
  refine added.trans (.bound fun _ covers => covers.dropUnknown fun same => ?_)
  rcases VariableHandle.mk.inj same with ⟨rfl, rfl⟩
  rcases yields_edit.mp done with
    ⟨_, impossible, _⟩ | ⟨solver, draft, found, edited, rfl⟩
  · cases impossible
  · have below := (guards.holds found).2.1
    rcases Edit.yields_ofOutcome_bind_ok.mp edited with ⟨_, _, inserted⟩
    simp only [Edit.yields_current_bind, Edit.yields_update_bind,
      Edit.yields_pure] at inserted
    have isNext : watch.id = solver.nextVariable := Except.ok.inj inserted.1
    exact absurd isNext (Int.ne_of_lt below)

/-- A handle is for the watched variable, or for another one. -/
theorem variableHandle_follows {name label : String} {target : VariableId}
    (isCommand : command = .operation (.variableHandle name target label))
    (yields : (do
      bindVariable label ⟨← solverNamed name, target⟩
      return .nothing : Action ℚ (Reply ℚ)).Yields before (.ok reply) after) :
    World.Follows watch tolerance False before
      (after.record (.commandEnded command (.ok reply))) False := by
  subst isCommand
  rcases yields_bind_ok.mp yields with ⟨id, middle, named, later⟩
  have isSolver := bound_of_lookUp named
  cases (Reads.lookUp _ _).same named
  rcases yields_bind_ok.mp later with ⟨_, last, bound, rest⟩
  rw [(yields_pure.mp rest).2, (yields_relabel.mp bound).2]
  refine .bound fun aliases covers => ?_
  rw [Aliases.heed]
  split
  · exact covers.addUnknown label _
  · next other =>
      refine covers.dropUnknown fun same => other ?_
      rcases VariableHandle.mk.inj same with ⟨rfl, isTarget⟩
      exact ⟨covers.solvers name isSolver, isTarget⟩

/-- A subscription of the hook of the watched variable is not cancelled; to
cancel one that is stale changes nothing. -/
theorem cancel_follows {name : String}
    (isCommand : command = .operation (.cancel name))
    (guards : before.Guards watch tolerance)
    (yields : (do
      let subscription ← subscriptionNamed name
      Action.edit subscription.solver
        (Edit.forget subscription.id subscription.hook)
      return .nothing : Action ℚ (Reply ℚ)).Yields before (.ok reply) after) :
    World.Follows watch tolerance False before
      (after.record (.commandEnded command (.ok reply))) False := by
  subst isCommand
  rcases yields_bind_ok.mp yields with
    ⟨⟨id, target, hook⟩, middle, named, later⟩
  have isSubscription := bound_of_lookUp named
  cases (Reads.lookUp _ _).same named
  rcases yields_bind_ok.mp later with ⟨_, last, done, rest⟩
  rw [(yields_pure.mp rest).2]
  rcases yields_edit.mp done with ⟨_, impossible, _⟩ |
    ⟨solver, draft, found, edited, rfl⟩
  · cases impossible
  · by_cases isMine : (⟨id, target, hook⟩ : Subscription) =
        ⟨watch.solver, watch.id, some watch.hook⟩
    · refine .of_meddling rfl fun aliases covers => decide_eq_false ?_
      exact not_not.mpr (covers.subscriptions name (isMine ▸ isSubscription))
    · have forgotten : World.Follows watch tolerance False before
          (before.adopt id draft) False := by
        by_cases isWatched : id = watch.solver ∧ target = watch.id
        · rcases isWatched with ⟨rfl, rfl⟩
          have listens := (guards.holds found).2.2.2
          have stale : ∀ mine, hook = some mine →
              solver.hookOf watch.id ≠ some mine := by
            rintro mine rfl isHook
            rcases Option.bind_eq_some_iff.mp isHook with
              ⟨contents, present, own⟩
            cases (listens contents present).symm.trans own
            exact isMine rfl
          have same := (Edit.yields_forget_of_stale stale).symm.trans edited
          cases same
          rw [World.adopt_self found]
          exact .refl before
        · have still : (Task.forget target hook : Task ℚ).edit =
              (Edit.forget target hook).still := rfl
          exact edit_follows still
            (fun isSolver isTarget => isWatched ⟨isSolver, isTarget⟩) done
      exact forgotten.trans (.record (fun _ => rfl) fun _ => rfl)

/-- The tolerance of another solver is set. -/
theorem setTolerance_follows {name : String} {operand : Operand ℚ}
    (isCommand : command = .operation (.change name (.tolerance operand)))
    (yields : (do
      changeSetting context (← solverNamed name) (.tolerance operand)
      : Action ℚ (Reply ℚ)).Yields before (.ok reply) after) :
    World.Follows watch tolerance False before
      (after.record (.commandEnded command (.ok reply))) False := by
  subst isCommand
  rcases yields_bind_ok.mp yields with ⟨id, middle, named, later⟩
  have isSolver := bound_of_lookUp named
  cases (Reads.lookUp _ _).same named
  rcases yields_bind_ok.mp later with ⟨number, last, evaluated, rest⟩
  cases (Reads.evaluate _ _).same evaluated
  rcases yields_bind_ok.mp rest with ⟨_, changed, update, replied⟩
  rw [(yields_pure.mp replied).2, (yields_update.mp update).2]
  by_cases isWatched : id = watch.solver
  · subst isWatched
    have silent : ∀ change, (before.change watch.solver change).history =
        ([] : List (Note ℚ)).map (.noted watch.solver) ++ before.history :=
      fun _ => rfl
    refine .of_meddling (silent _) fun aliases covers => decide_eq_false ?_
    exact not_not.mpr (covers.solvers name isSolver)
  · exact (World.Follows.change fun same => absurd same isWatched).trans
      (.record (fun _ => rfl) fun _ => rfl)

/-- Another variable than the watched one gets another hook. -/
theorem observe_follows {subject : String} {handle : VariableHandle}
    {hook : Option HookId} {label : Option String}
    (named : before.labels.unknowns.get? subject = some handle)
    (spares : ∀ aliases,
      command.spares aliases = decide (subject ∉ aliases.unknowns))
    (heeds : ∀ aliases : Aliases,
      aliases.heed watch command = aliases.dropSubscription label)
    (yields : (observe handle hook label).Yields before (.ok reply) after) :
    World.Follows watch tolerance False before
      (after.record (.commandEnded command (.ok reply))) False := by
  rcases yields_bind_ok.mp yields with ⟨_, middle, done, later⟩
  rcases yields_bind_ok.mp later with ⟨_, last, bound, rest⟩
  rw [(yields_pure.mp rest).2]
  by_cases isWatched : handle = ⟨watch.solver, watch.id⟩
  · subst isWatched
    have noted : ∃ notes : List (Note ℚ),
        last.history = notes.map (.noted watch.solver) ++ before.history := by
      have same : last.history = middle.history := by
        cases label with
        | none => rw [(yields_pure.mp bound).2]
        | some label =>
            simp only [bindSubscription] at bound
            rw [(yields_relabel.mp bound).2]
      rw [same]
      rcases yields_edit.mp done with
        ⟨_, impossible, _⟩ | ⟨solver, draft, _, _, rfl⟩
      · cases impossible
      · exact ⟨draft.notes, rfl⟩
    rcases noted with ⟨notes, history⟩
    refine .of_meddling history fun aliases covers => ?_
    rw [spares]
    exact decide_eq_false (not_not.mpr (covers.unknowns subject named))
  · have still : (Task.observe handle hook : Task ℚ).edit =
        (Edit.observe handle hook).still := rfl
    have observed :
        World.Follows watch tolerance False before middle False := by
      refine edit_follows still (fun isSolver isTarget => isWatched ?_) done
      rw [← isSolver, ← isTarget]
    cases label with
    | none =>
        rw [(yields_pure.mp bound).2]
        exact observed.trans (.record (fun _ => rfl) heeds)
    | some label =>
        simp only [bindSubscription] at bound
        rw [(yields_relabel.mp bound).2]
        refine observed.trans (.bound fun aliases covers => ?_)
        rw [heeds]
        refine covers.dropSubscription fun same => isWatched ?_
        cases handle
        cases same
        rfl

theorem observing_follows {subject : String} {listener : Listener}
    {label : Option String}
    (yields :
      (execute engine context (.observe subject listener label)).Yields before
        (.ok reply) after) :
    World.Follows watch tolerance False before
      (after.record
        (.commandEnded (.observe subject listener label) (.ok reply)))
      False := by
  rcases yields_bind_ok.mp yields with ⟨handle, middle, named, rest⟩
  have isHandle := bound_of_lookUp named
  cases (Reads.lookUp _ _).same named
  cases listener with
  | nobody => exact observe_follows isHandle (fun _ => rfl) (fun _ => rfl) rest
  | label name =>
      rcases yields_bind_ok.mp rest with ⟨hook, middle, named, rest⟩
      cases (Reads.lookUp _ _).same named
      exact observe_follows isHandle (fun _ => rfl) (fun _ => rfl) rest
  | foreign kind => cases (yields_throw.mp rest).1

theorem observingInline_follows {subject : String} {body : Script ℚ}
    {label : Option String}
    (yields :
      (execute engine context (.observeInline subject body label)).Yields before
        (.ok reply) after) :
    World.Follows watch tolerance False before
      (after.record
        (.commandEnded (.observeInline subject body label) (.ok reply)))
      False := by
  rcases yields_bind_ok.mp yields with ⟨handle, middle, named, rest⟩
  have isHandle := bound_of_lookUp named
  cases (Reads.lookUp _ _).same named
  rw [yields_addHook_bind] at rest
  exact (World.Follows.addHook subject body).trans
    (observe_follows isHandle (fun _ => rfl) (fun _ => rfl) rest)

end Meddling

section Commands

variable (follows : engine.Follows watch tolerance)
include follows

theorem Shaped.follows_ended {context : Option ℚ} {command : Command ℚ}
    {reply : Reply ℚ}
    (shaped : Shaped engine context command (execute engine context command))
    (plain : command.mayMeddle = false)
    (yields : (execute engine context command).Yields before (.ok reply)
      after) :
    World.Follows watch tolerance False before
      (after.record (.commandEnded command (.ok reply))) False :=
  (shaped.follows follows plain _ _ _ yields).trans
    (.record (fun _ => rfl) fun _ => Aliases.heed_of_plain plain)

theorem operate_follows {context : Option ℚ} {operation : Operation ℚ}
    {reply : Reply ℚ}
    (guards : before.Guards watch tolerance)
    (yields :
      (operate engine context operation).Yields before (.ok reply) after) :
    World.Follows watch tolerance False before
      (after.record (.commandEnded (.operation operation) (.ok reply)))
      False := by
  have shaped : Shaped engine context (.operation operation)
      (execute engine context (.operation operation)) :=
    operate_shaped operation
  cases operation with
  | newSolver label autoSolve refusesContradiction operand cascadeLimit =>
      rcases yields_bind_ok.mp yields with ⟨number, middle, evaluated, rest⟩
      cases (Reads.evaluate _ _).same evaluated
      exact newSolver_follows rfl guards rest
  | addVariable name label title operand =>
      rcases yields_bind_ok.mp yields with ⟨id, middle, named, later⟩
      cases (Reads.lookUp _ _).same named
      rcases yields_bind_ok.mp later with ⟨number, last, evaluated, rest⟩
      cases (Reads.evaluate _ _).same evaluated
      exact addVariable_follows rfl guards rest
  | variableHandle name target label => exact variableHandle_follows rfl yields
  | cancel name => exact cancel_follows rfl guards yields
  | change name setting =>
      cases setting with
      | tolerance operand => exact setTolerance_follows rfl yields
      | _ => exact shaped.follows_ended follows rfl yields
  | _ => exact shaped.follows_ended follows rfl yields

/-- A batch is heard of as far as its script is. -/
theorem batch_follows {context : Option ℚ} {name : String} {body : Script ℚ}
    {reply : Reply ℚ}
    (script : ∀ before after,
      (executeScript engine context body).Yields before (.ok ()) after →
      World.Follows watch tolerance False before after False)
    (yields : (execute engine context (.batch name body)).Yields before
      (.ok reply) after) :
    World.Follows watch tolerance False before after False := by
  rcases yields_bind_ok.mp yields with ⟨id, middle, named, rest⟩
  cases (Reads.lookUp _ _).same named
  rcases yields_solver_bind.mp rest with
    ⟨_, impossible, _⟩ | ⟨solver, found, rest⟩
  · cases impossible
  · simp only [yields_update_bind, yields_outcome_bind] at rest
    rcases rest with ⟨outcome, last, ran, closing⟩
    cases outcome with
    | error failure => cases (yields_throw.mp closing).1
    | ok value =>
        have held := (World.Follows.setAuto before id false).trans
          ((script _ _ ran).trans (.setAuto last id solver.settings.autoSolve))
        have closing := yields_pure_bind.mp closing
        split at closing
        · rcases yields_bind_ok.mp closing with ⟨_, final, done, rest⟩
          have spares : id = watch.solver →
              (Task.solve : Task ℚ).Spares watch.id :=
            fun _ => trivial
          rw [(yields_pure.mp rest).2]
          exact held.trans (perform_follows follows spares done)
        · rw [(yields_pure.mp closing).2]
          exact held

end Commands

mutual

/-- A command is heard of until it ends. -/
theorem execute_follows (sound : engine.Sound)
    (follows : engine.Follows watch tolerance) (context : Option ℚ)
    (command : Command ℚ) (reply : Reply ℚ) (before after : World ℚ)
    (yields : (execute engine context command).Yields before (.ok reply)
      after) :
    World.Follows watch tolerance False before
      (after.record (.commandEnded command (.ok reply))) False := by
  rcases (execute_runs sound context command _ _ _ yields).accounts with
    ⟨events, history, _⟩
  have extended : ∃ events,
      (after.record (.commandEnded command (.ok reply))).history =
        events ++ before.history :=
    ⟨.commandEnded command (.ok reply) ::
      events, by rw [World.record, history]; rfl⟩
  refine .of_guards extended fun guards => ?_
  cases command with
  | operation operation => exact operate_follows follows guards yields
  | defineHook label body =>
      exact (defineHook_shaped label body).follows_ended follows rfl yields
  | observe subject listener label => exact observing_follows yields
  | observeInline subject body label => exact observingInline_follows yields
  | batch name body =>
      have held := batch_follows follows
        (executeScript_follows sound follows context body) yields
      exact held.trans (.record (fun _ => rfl) fun _ => rfl)
termination_by structural command

/-- A script is heard of. -/
theorem executeScript_follows (sound : engine.Sound)
    (follows : engine.Follows watch tolerance) (context : Option ℚ)
    (script : Script ℚ) (before after : World ℚ)
    (yields : (executeScript engine context script).Yields before (.ok ())
      after) :
    World.Follows watch tolerance False before after False := by
  cases script with
  | done =>
      rw [(yields_pure.mp yields).2]
      exact .refl before
  | next command guarded rest =>
      rw [executeScript, yields_outcome_bind] at yields
      rcases yields with ⟨outcome, middle, ran, later⟩
      rw [yields_record_bind] at later
      have continues : (executeScript engine context rest).Yields
          (middle.record (.commandEnded command outcome)) (.ok ()) after := by
        cases guarded with
        | true => exact later
        | false =>
            rcases yields_bind_ok.mp later with ⟨_, same, ended, later⟩
            rw [(yields_ofOutcome.mp ended).2] at later
            exact later
      have later :=
        executeScript_follows sound follows context rest _ _ continues
      cases outcome with
      | error failure =>
          rcases (execute_runs sound context command _ _ _ ran).accounts with
            ⟨events, history, _⟩
          rcases later with ⟨since, historySince, _⟩
          exact .of_failed ⟨events, history⟩ ⟨since, historySince⟩
      | ok reply =>
          exact (execute_follows sound follows context command _ _ _
            ran).trans later
termination_by structural script

end

end Action

theorem Engine.ofDepth_follows (watch : Watch) (tolerance : ℚ)
    (patience depth : Nat) :
    (Engine.ofDepth patience depth : Engine ℚ).Follows watch tolerance := by
  induction depth with
  | zero => exact fun _ _ _ _ _ yields => absurd yields Action.yields_exhausted
  | succ depth induction =>
      intro body value before result after yields
      exact Action.executeScript_follows (Engine.ofDepth_sound patience depth)
        induction (some value) body before after yields

/-! ## Sessions -/

theorem Aliases.covers_of_entries {watch : Watch} {aliases : Aliases}
    {labels : Labels ℚ}
    (solvers : ∀ entry ∈ labels.solvers.entries, entry.2 = watch.solver →
      entry.1 ∈ aliases.solvers)
    (unknowns : ∀ entry ∈ labels.unknowns.entries,
      entry.2 = ⟨watch.solver, watch.id⟩ → entry.1 ∈ aliases.unknowns)
    (subscriptions : ∀ entry ∈ labels.subscriptions.entries,
      entry.2 = ⟨watch.solver, watch.id, some watch.hook⟩ →
        entry.1 ∈ aliases.subscriptions) :
    aliases.Covers watch labels :=
  ⟨fun _ bound => solvers _ (Table.mem_entries_of_get? bound) rfl,
    fun _ bound => unknowns _ (Table.mem_entries_of_get? bound) rfl,
    fun _ bound => subscriptions _ (Table.mem_entries_of_get? bound) rfl⟩

namespace Session

variable {watch : Watch} {tolerance : ℚ} {world : World ℚ} {solver : Solver ℚ}
  {hook : Hook ℚ} {start : ℚ} {engine : Engine ℚ} {aliases : Aliases}

/-- What happens in steps of a session, latest first: the events of each step,
and then the end of its command. -/
def story : List (Command ℚ) → List (Step ℚ) → List (Event ℚ)
  | command :: rest, done :: later =>
      story rest later ++ .commandEnded command done.outcome ::
        done.events.reverse
  | _, _ => []

theorem step_follows {command : Command ℚ} {done : Step ℚ}
    (sound : engine.Sound) (follows : engine.Follows watch tolerance)
    (stepped : step engine world command = some done)
    (spared : aliases.sparedBy watch
      (.commandEnded command done.outcome :: done.events.reverse) = true)
    (covers : aliases.Covers watch world.labels)
    (guards : world.Guards watch tolerance) :
    (aliases.after watch
        (.commandEnded command done.outcome :: done.events.reverse)).Covers
      watch done.world.labels ∧ done.world.Guards watch tolerance ∧
      done.world.history = done.events.reverse ++ world.history ∧
      ∀ hearing : Hearing, world.Tracks watch tolerance hearing →
        done.world.Tracks watch tolerance
          (hearing.after watch done.events.reverse) := by
  have yields := yields_of_step stepped
  have history := (step_runs sound stepped).2
  cases isOutcome : done.outcome with
  | error failure =>
      have isSpared := (Bool.and_eq_true_iff.mp spared).2
      rw [isOutcome] at isSpared
      cases isSpared
  | ok reply =>
      rw [isOutcome] at yields spared
      rcases Action.execute_follows sound follows none command _ _ _ yields with
        ⟨events, isHistory, told⟩
      have isEvents :
          events = .commandEnded command (.ok reply) ::
            done.events.reverse := by
        refine List.append_cancel_right (isHistory.symm.trans ?_)
        rw [World.record, history, List.cons_append]
      subst isEvents
      rcases told aliases spared covers guards with
        ⟨coversAfter, guardsAfter, tracks⟩
      exact ⟨coversAfter, guardsAfter, history, fun hearing tracked =>
        (tracks hearing (.inr tracked)).resolve_left not_false⟩

/-- A hook hears of its variable in each step of a session. -/
theorem play_follows (sound : engine.Sound)
    (follows : engine.Follows watch tolerance) (commands : List (Command ℚ)) :
    ∀ (world : World ℚ) (aliases : Aliases) (hearing : Hearing),
      aliases.Covers watch world.labels → world.Guards watch tolerance →
      world.Tracks watch tolerance hearing →
      aliases.sparedBy watch
        (story commands (play engine world commands)) = true →
      ∀ done ∈ play engine world commands, ∃ events,
        done.world.history = events ++ world.history ∧
          done.world.Tracks watch tolerance (hearing.after watch events) := by
  induction commands with
  | nil =>
      intro world aliases hearing _ _ _ _ done member
      cases member
  | cons command rest induction =>
      intro world aliases hearing covers guards tracks spared done member
      simp only [play] at spared member
      cases stepped : step engine world command with
      | none =>
          rw [stepped] at member
          cases member
      | some first =>
          rw [stepped] at spared member
          rcases Aliases.sparedBy_append.mp spared with
            ⟨sparedFirst, sparedLater⟩
          rcases step_follows sound follows stepped sparedFirst covers
            guards with
            ⟨coversAfter, guardsAfter, history, tracksAfter⟩
          rcases List.mem_cons.mp member with rfl | isLater
          · exact ⟨done.events.reverse, history, tracksAfter _ tracks⟩
          · rcases induction first.world _ _ coversAfter guardsAfter
              (tracksAfter _ tracks) sparedLater done isLater with
              ⟨events, historyLater, tracksLater⟩
            refine ⟨events ++ first.events.reverse, ?_, ?_⟩
            · rw [historyLater, history, List.append_assoc]
            · rw [Hearing.after_append]
              exact tracksLater

theorem Reached.guards (sound : engine.Sound) (reached : Reached engine world)
    (found : world.solvers[watch.solver]? = some solver)
    (given : solver.settings.tolerance = some tolerance)
    (registered : solver.hookOf watch.id = some watch.hook)
    (listens : world.listener solver watch.id = some (hook, start)) :
    world.Guards watch tolerance ∧ world.Tracks watch tolerance ⟨start, 0⟩ := by
  simp only [World.listener, Option.bind_eq_bind, Option.bind_eq_some_iff]
    at listens
  rcases listens with ⟨contents, present, target, isTarget, _, known, same⟩
  cases same
  rw [Solver.hookOf, present, Option.bind_some, isTarget] at registered
  cases registered
  have below :=
    (reached.coherent sound _ _ found).unknownsBelow _
      (Table.mem_keys_of_get? present)
  constructor
  · refine ⟨solver, found, given, below,
      (List.getElem?_eq_some_iff.mp known).1, ?_⟩
    intro other isOther
    cases present.symm.trans isOther
    exact isTarget
  · intro same other isSame isOther
    cases found.symm.trans isSame
    cases present.symm.trans isOther
    simp

/-- Once a hook is registered with a variable, and stays so, the variable stays
near the value that the hook was called with last, or that the variable had to
begin with: as near as the tolerance for each solution that has been written
since. -/
theorem play_near_heard {patience depth : Nat}
    (reached : Reached (.ofDepth patience depth) world)
    (covers : aliases.Covers watch world.labels)
    (found : world.solvers[watch.solver]? = some solver)
    (given : solver.settings.tolerance = some tolerance)
    (registered : solver.hookOf watch.id = some watch.hook)
    (listens : world.listener solver watch.id = some (hook, start))
    (commands : List (Command ℚ)) (spared : aliases.sparedBy watch
      (story commands (play (.ofDepth patience depth) world commands)) = true) :
    ∀ done ∈ play (.ofDepth patience depth) world commands, ∃ events hearing,
      done.world.history = events ++ world.history ∧
        hearing = (⟨start, 0⟩ : Hearing).after watch events ∧
        ∀ solver contents, done.world.solvers[watch.solver]? = some solver →
          solver.unknowns.get? watch.id = some contents →
            |hearing.value - contents.value| ≤ tolerance * hearing.solves := by
  intro done member
  have sound : (Engine.ofDepth patience depth : Engine ℚ).Sound :=
    Engine.ofDepth_sound patience depth
  have follows := Engine.ofDepth_follows watch tolerance patience depth
  rcases reached.guards sound found given registered listens with
    ⟨guards, tracks⟩
  rcases play_follows sound follows commands world aliases _ covers guards
    tracks spared done member with ⟨events, history, tracksAfter⟩
  exact ⟨events, _, history, rfl, tracksAfter⟩

/-- A variable with a hook from the start. -/
def attunedCommands : List (Command ℚ) :=
  [.operation (.newSolver "s" true true (.literal (some (1 / 2))) 10),
    .operation (.addVariable "s" "x" none (.literal (some 0))),
    .observeInline "x" (.ofList []) none]

def attunedWorld : World ℚ :=
  ((play (.ofDepth 9 3) .empty attunedCommands).getLast?.map
    Step.world).getD .empty

/-- Moves of `x` that are too small for its hook one by one, and then one that
is not. -/
def creepingCommands : List (Command ℚ) :=
  [.operation (.addConstraint "s" (some "c") [(.label "x", .literal (some 1))]
      (.literal (some 0))),
    .operation (.setSum "c" (.literal (some (3 / 8))) .chained),
    .operation (.setSum "c" (.literal (some (3 / 4))) .chained),
    .operation (.setSum "c" (.literal (some 2)) .chained)]

def xWatch : Watch :=
  { solver := 0
    id := 0
    hook := 0 }

def xAliases : Aliases :=
  { solvers := ["s"]
    unknowns := ["x"]
    subscriptions := [] }

theorem play_near_heard_creepingCommands :
    (((play (.ofDepth 9 3) attunedWorld creepingCommands).map fun done =>
        (⟨0, 0⟩ : Hearing).after xWatch done.world.history) =
      [⟨0, 1⟩, ⟨0, 2⟩, ⟨0, 3⟩, ⟨2, 0⟩]) ∧
    ∀ done ∈ play (.ofDepth 9 3) attunedWorld creepingCommands,
      ∃ events hearing, done.world.history = events ++ attunedWorld.history ∧
        hearing = (⟨0, 0⟩ : Hearing).after xWatch events ∧
        ∀ solver contents, done.world.solvers[xWatch.solver]? = some solver →
          solver.unknowns.get? xWatch.id = some contents →
            |hearing.value - contents.value| ≤ 1 / 2 * hearing.solves := by
  refine ⟨by decide +kernel, ?_⟩
  have covers : xAliases.Covers xWatch attunedWorld.labels :=
    Aliases.covers_of_entries (by decide +kernel) (by decide +kernel)
      (by decide +kernel)
  have isThere : attunedWorld.solvers[xWatch.solver]?.isSome = true := by
    decide +kernel
  rcases Option.isSome_iff_exists.mp isThere with ⟨solver, found⟩
  have suited : ∀ solver ∈ attunedWorld.solvers[xWatch.solver]?,
      solver.settings.tolerance = some (1 / 2) ∧
        solver.hookOf xWatch.id = some xWatch.hook ∧
        ((attunedWorld.listener solver xWatch.id).map Prod.snd) = some 0 := by
        decide +kernel
  rcases suited solver found with ⟨given, registered, listens⟩
  rcases Option.map_eq_some_iff.mp listens with
    ⟨⟨hook, start⟩, listens, isStart⟩
  have isStart : start = 0 := isStart
  subst isStart
  have spared : xAliases.sparedBy xWatch
      (story creepingCommands
        (play (.ofDepth 9 3) attunedWorld creepingCommands)) = true := by
    decide +kernel
  exact play_near_heard (Reached.of_last _ attunedCommands) covers found given
    registered listens creepingCommands spared

/-- A variable may stray further than the tolerance while its hook, which has
been there from the start, has heard nothing. -/
theorem exists_value_far_from_heard :
    (∀ done ∈ play (.ofDepth 9 3) .empty (attunedCommands ++ creepingCommands),
      done.outcome.isOk = true ∧ ∀ event ∈ done.events,
        event.isFailure = false) ∧
    ∃ done ∈ play (.ofDepth 9 3) .empty (attunedCommands ++ creepingCommands),
      (∀ event ∈ done.world.history, event.calledBy 0 = none) ∧
        ∃ solver ∈ done.world.solvers, solver.settings.autoSolve = true ∧
          solver.settings.tolerance = some (1 / 2) ∧
          ∃ contents ∈ solver.unknowns.values, contents.hook = some 0 ∧
            1 / 2 < |0 - contents.value| := by
  decide +kernel

end Session

end LiveLinear
