import LiveLinear.Proofs.Session.Attending
import LiveLinear.Proofs.Session.Rounds
import LiveLinear.Proofs.Session.Trace

namespace LiveLinear

/-! # Outside of hooks

The worlds in which commands are issued that no hook issues: those between two
commands of a session, and those between two commands of a batch that is not
held in a hook. -/

open Activity (Runs)

variable {α : Type}

def Command.isBatch : Command α → Bool
  | .batch _ _ => true
  | .operation _ | .defineHook _ _ | .observe _ _ _ | .observeInline _ _ _ =>
      false

def World.OnlyNotes (before after : World α) : Prop :=
  ∃ events : List (Event α), after.history = events ++ before.history ∧
    ∀ event ∈ events, ∃ id note, event = .noted id note

namespace World.OnlyNotes

variable {before middle after : World α}

theorem of_same (same : after.history = before.history) :
    before.OnlyNotes after :=
  ⟨[], same, by simp⟩

theorem trans (left : before.OnlyNotes middle)
    (right : middle.OnlyNotes after) :
    before.OnlyNotes after := by
  rcases left with ⟨earlier, leftHistory, leftNotes⟩
  rcases right with ⟨later, rightHistory, rightNotes⟩
  refine ⟨later ++ earlier, ?_, ?_⟩
  · rw [rightHistory, leftHistory, List.append_assoc]
  · intro event member
    rcases List.mem_append.mp member with late | early
    · exact rightNotes event late
    · exact leftNotes event early

theorem of_edit {β : Type} {id : SolverId} {change : Edit α β}
    {result : Except (Failure α) β}
    (yields : (Action.edit id change).Yields before result after) :
    before.OnlyNotes after := by
  rcases Action.yields_edit.mp yields with ⟨_, _, rfl⟩ | ⟨_, draft, _, _, rfl⟩
  · exact of_same rfl
  · refine ⟨draft.notes.map (.noted id), rfl, ?_⟩
    intro event member
    rcases List.mem_map.mp member with ⟨note, _, rfl⟩
    exact ⟨id, note, rfl⟩

theorem of_observeNew [Scalar α] {handle : VariableHandle} {tag : String}
    {body : Script α} {result : Except (Failure α) HookId}
    (yields : (Action.observeNew handle tag body).Yields before result after) :
    before.OnlyNotes after := by
  rw [Action.observeNew, Action.yields_addHook_bind] at yields
  have hooks : before.OnlyNotes (before.addHook tag body) := of_same rfl
  rcases Action.yields_bind.mp yields with
    ⟨_, failed, _⟩ | ⟨_, middle, done, rest⟩
  · exact hooks.trans (of_edit failed)
  · rw [(Action.yields_pure.mp rest).2]
    exact hooks.trans (of_edit done)

end World.OnlyNotes

variable [Scalar α]

namespace Session

/-- One step of a session, as far as commands outside of hooks go. -/
inductive Issues (engine : Engine α) : World α → World α → Prop
  /-- A command that is no batch is carried out. -/
  | command {command : Command α} (single : command.isBatch = false)
      (yields : (Action.execute engine none command).Yields before outcome
        after) :
      Issues engine before after
  /-- A batch begins or ends, and switches automatic solving. -/
  | switched (world : World α) (id : SolverId) (autoSolve : Bool) :
      Issues engine world (world.change id fun solver =>
        solver.setAuto autoSolve)
  | ended (command : Command α) (outcome : Except (Failure α) (Reply α)) :
      Issues engine world (world.record (.commandEnded command outcome))
  /-- Labels are bound on the way. -/
  | labelled (like : before.Like after) : Issues engine before after
  /-- The solve that ends a batch is carried out. -/
  | closing {id : SolverId}
      (yields : (Action.perform engine id Edit.writeSolution).Yields before
        result after) :
      Issues engine before after

/-- Whether `later` is a world outside of hooks to which `world`, which is one,
leads. -/
def Onward (engine : Engine α) (world later : World α) : Prop :=
  Relation.ReflTransGen (Issues engine) world later

/-- Whether the world is one outside of hooks. -/
def Outer (engine : Engine α) (world : World α) : Prop :=
  Onward engine .empty world

/-- An operation of a solver is carried out: a task, with the announcement of
what it has moved. -/
inductive Carries (engine : Engine α) (id : SolverId) :
    Task α → World α → Ending α → World α → Prop
  | performed {task : Task α}
      (yields : (Action.perform engine id task.edit).Yields before result
        after) :
      Carries engine id task before result after
  | added {outcome : Except (Failure α) (Reply α)}
      (yields : (Action.addConstraint engine id terms total label).Yields before
        outcome after) :
      Carries engine id (.addConstraint terms total) before
        (ending outcome) after

variable {engine : Engine α} {world before middle after later : World α}

theorem Issues.onward (issues : Issues engine before after) :
    Onward engine before after :=
  Relation.ReflTransGen.single issues

theorem Onward.trans (left : Onward engine before middle)
    (right : Onward engine middle after) :
    Onward engine before after :=
  Relation.ReflTransGen.trans left right

theorem Outer.empty : Outer engine .empty :=
  Relation.ReflTransGen.refl

theorem Outer.onward (outer : Outer engine world)
    (onward : Onward engine world later) :
    Outer engine later :=
  Onward.trans outer onward

/-! ## Commands stay outside of hooks -/

mutual

/-- A command leads from one world outside of hooks to another one, and so does
every command of a batch. -/
theorem onward_of_execute (command : Command α) {before after : World α}
    {outcome : Except (Failure α) (Reply α)}
    (yields : (Action.execute engine none command).Yields before outcome
      after) :
    Onward engine before after := by
  cases command with
  | operation | defineHook | observe | observeInline =>
      exact (Issues.command rfl yields).onward
  | batch name body =>
      rcases Action.yields_bind.mp yields with ⟨failure, failed, _⟩
        | ⟨id, start, named, rest⟩
      · rw [(Action.Reads.lookUp _ _).same failed]
        exact Relation.ReflTransGen.refl
      · cases (Action.Reads.lookUp _ _).same named
        rcases Action.yields_solver_bind.mp rest with
          ⟨_, _, rfl⟩ | ⟨solver, found, rest⟩
        · exact Relation.ReflTransGen.refl
        · simp only [Action.yields_update_bind, Action.yields_outcome_bind]
            at rest
          rcases rest with ⟨result, middle, ran, closing⟩
          have held : Onward engine before middle :=
            (Issues.switched before id false).onward.trans
              (onward_of_executeScript body ran)
          have ended :=
            held.trans
              (Issues.switched middle id solver.settings.autoSolve).onward
          cases result with
          | error failure =>
              rcases Action.yields_throw.mp closing with ⟨_, rfl⟩
              exact ended
          | ok value =>
              rw [Action.ofOutcome, Action.yields_pure_bind] at closing
              split at closing
              · rcases Action.yields_bind.mp closing with ⟨failure, failed, _⟩ |
                  ⟨_, last, done, replying⟩
                · exact ended.trans (Issues.closing failed).onward
                · rcases Action.yields_pure.mp replying with ⟨_, rfl⟩
                  exact ended.trans (Issues.closing done).onward
              · rcases Action.yields_pure.mp closing with ⟨_, rfl⟩
                exact ended
termination_by structural command

theorem onward_of_executeScript (script : Script α) {before after : World α}
    {result : Ending α}
    (yields : (Action.executeScript engine none script).Yields before result
      after) :
    Onward engine before after := by
  cases script with
  | done =>
      rcases Action.yields_pure.mp yields with ⟨_, rfl⟩
      exact Relation.ReflTransGen.refl
  | next command guarded rest =>
      rw [Action.executeScript, Action.yields_outcome_bind] at yields
      rcases yields with ⟨outcome, middle, ran, later⟩
      rw [Action.yields_record_bind] at later
      have first :=
        (onward_of_execute command ran).trans
          (Issues.ended command outcome).onward
      cases guarded with
      | true => exact first.trans (onward_of_executeScript rest later)
      | false =>
          cases outcome with
          | error failure =>
              rcases Action.yields_throw.mp later with ⟨_, rfl⟩
              exact first
          | ok reply => exact first.trans (onward_of_executeScript rest later)
termination_by structural script

end

theorem outer_of_reached (reached : Reached engine world) :
    Outer engine world := by
  induction reached with
  | empty => exact Outer.empty
  | step _ stepped induction =>
      exact induction.onward (onward_of_execute _ (yields_of_step stepped))

/-! ## What holds outside of hooks -/

section Invariants

variable (sound : engine.Sound)
include sound

/-- A step outside of hooks goes by the rules for commands, if it does not just
switch automatic solving or end a command. -/
theorem Issues.keeps (issues : Issues engine before after)
    (invariant : World α → Prop)
    (ran : ∀ {command : Command α} {before after : World α} {result : Ending α},
      Runs (.command none command) before result after → invariant before →
      invariant after)
    (switched : ∀ (world : World α) (id : SolverId) (autoSolve : Bool),
      invariant world →
      invariant (world.change id fun solver => solver.setAuto autoSolve))
    (ended : ∀ (world : World α) (command : Command α)
      (outcome : Except (Failure α) (Reply α)), invariant world →
      invariant (world.record (.commandEnded command outcome)))
    (holds : invariant before) : invariant after := by
  cases issues with
  | command _ yields =>
      exact ran (Action.execute_runs sound none _ _ _ _ yields) holds
  | switched id autoSolve => exact switched _ id autoSolve holds
  | ended command outcome => exact ended _ command outcome holds
  | labelled like =>
      have looks :
          Runs (.command none (.operation (.countHandles []))) before (.ok ())
            after :=
        .relabelled (.refl before) (.atOnce (.aside rfl)) like
      exact ran looks holds
  | closing yields =>
      have solve :
          Runs (.command none (.operation (.solve ""))) before _ after :=
        .asked .solve (Action.runs_perform sound yields)
      exact ran solve holds

theorem Onward.keeps (onward : Onward engine world later)
    (invariant : World α → Prop)
    (ran : ∀ {command : Command α} {before after : World α} {result : Ending α},
      Runs (.command none command) before result after → invariant before →
      invariant after)
    (switched : ∀ (world : World α) (id : SolverId) (autoSolve : Bool),
      invariant world →
      invariant (world.change id fun solver => solver.setAuto autoSolve))
    (ended : ∀ (world : World α) (command : Command α)
      (outcome : Except (Failure α) (Reply α)), invariant world →
      invariant (world.record (.commandEnded command outcome)))
    (holds : invariant world) : invariant later := by
  induction onward with
  | refl => exact holds
  | tail _ issues induction =>
      exact issues.keeps sound invariant ran switched ended induction

theorem Onward.quiet (onward : Onward engine world later)
    (quiet : world.Quiet) : later.Quiet := by
  refine onward.keeps sound World.Quiet ?_ ?_ ?_ quiet
  · intro command before after result runs quiet
    rcases runs.settles quiet.settled with ⟨settled, continues⟩
    exact quiet.of_settled settled continues
  · intro world id autoSolve quiet
    exact World.Each.change quiet (fun _ _ _ holds => holds) fun _ _ holds =>
      ⟨holds.dispatching, holds.draining, holds.rested⟩
  · exact fun _ _ _ quiet => quiet

theorem Onward.becomes (onward : Onward engine world later) :
    world.Becomes later := by
  refine onward.keeps sound world.Becomes ?_ ?_ ?_ (.refl world)
  · exact fun runs becomes => becomes.trans runs.becomes
  · intro middle id autoSolve becomes
    have switches :
        middle.Becomes (middle.change id fun solver =>
          solver.setAuto autoSolve) :=
      .mark fun _ => ⟨rfl, rfl, rfl, rfl⟩
    exact becomes.trans switches
  · exact fun _ _ _ becomes => becomes.trans (.record _ _)

theorem Onward.accounts (onward : Onward engine world later) :
    world.Accounts later := by
  refine onward.keeps sound world.Accounts ?_ ?_ ?_ (.refl world)
  · exact fun runs accounts => accounts.trans runs.accounts
  · exact fun _ _ _ accounts => accounts.trans (.keep fun _ => ⟨rfl, rfl⟩)
  · exact fun _ _ _ accounts => accounts.trans (.record fun _ => rfl)

theorem Outer.quiet (outer : Outer engine world) : world.Quiet :=
  Onward.quiet sound outer World.quiet_empty

theorem Outer.represented (outer : Outer engine world) : world.Represented :=
  (Onward.becomes sound outer).represented fun _ _ found => nomatch found

theorem Outer.fit (outer : Outer engine world) : world.Fit := by
  refine Onward.keeps sound outer World.Fit ?_ ?_ ?_ ?_
  · exact fun runs fit => (runs.goes fit trivial).fit
  · exact fun _ _ _ fit => (World.Stays.setSettings fit).fit
  · exact fun _ _ _ fit => (World.Stays.ended fit).fit
  · exact ⟨.empty, fun _ _ found => nomatch found⟩

theorem Outer.inStep (outer : Outer engine world) : world.InStep :=
  (outer.fit sound).inStep

end Invariants

/-! ## Operations -/

namespace Carries

variable {id : SolverId} {task : Task α} {result : Ending α}

/-- An operation ends with its own edit if that fails, or else with the
announcement. -/
theorem cases (carries : Carries engine id task before result after) :
    (before.solvers[id]? = none ∧ result = .error (.unknownSolver id) ∧
      after = before) ∨
      ∃ solver draft, before.solvers[id]? = some solver ∧
        ((∃ failure, task.edit.Yields ⟨solver, []⟩ (.error failure) draft ∧
            result = .error failure ∧ after = before.adopt id draft) ∨
          ∃ moved final, task.edit.Yields ⟨solver, []⟩ (.ok moved) draft ∧
            (Action.announce engine id moved).Yields (before.adopt id draft)
              result final ∧
            final.Like after) := by
  cases carries with
  | performed yields =>
      rcases Action.yields_bind.mp yields with ⟨failure, failed, rfl⟩
        | ⟨moved, middle, done, rest⟩
      · rcases Action.yields_edit.mp failed with ⟨lost, isFailure, rfl⟩ |
          ⟨solver, draft, found, edited, rfl⟩
        · cases isFailure
          exact .inl ⟨lost, rfl, rfl⟩
        · exact .inr ⟨solver, draft, found, .inl ⟨failure, edited, rfl, rfl⟩⟩
      · rcases Action.yields_edit.mp done with ⟨_, impossible, _⟩ |
          ⟨solver, draft, found, edited, rfl⟩
        · cases impossible
        · exact .inr ⟨solver, draft, found,
            .inr ⟨moved, after, edited, rest, .refl after⟩⟩
  | added yields =>
      rcases Action.yields_bind.mp yields with ⟨failure, failed, rfl⟩ |
        ⟨⟨constraint, moved⟩, middle, done, rest⟩
      · rcases Action.yields_edit.mp failed with ⟨lost, isFailure, rfl⟩ |
          ⟨solver, draft, found, edited, rfl⟩
        · cases isFailure
          exact .inl ⟨lost, rfl, rfl⟩
        · have edited := Task.yields_addConstraint.mpr ⟨_, edited, rfl⟩
          exact .inr ⟨solver, draft, found, .inl ⟨failure, edited, rfl, rfl⟩⟩
      · rcases Action.yields_edit.mp done with ⟨_, impossible, _⟩ |
          ⟨solver, draft, found, edited, rfl⟩
        · cases impossible
        · have edited := Task.yields_addConstraint.mpr ⟨_, edited, rfl⟩
          refine .inr ⟨solver, draft, found, .inr ⟨moved, ?_⟩⟩
          rcases Action.yields_bind.mp rest with ⟨failure, failed, rfl⟩
            | ⟨_, final, told, binding⟩
          · exact ⟨after, edited, failed, .refl after⟩
          · rcases (Action.Closes.bindingConstraint True _ _ _).like
              binding with
              ⟨⟨reply, rfl⟩, like⟩
            exact ⟨final, edited, told, like⟩

theorem runs (sound : engine.Sound)
    (carries : Carries engine id task before result after) :
    Runs (.task id task) before result after := by
  rcases carries.cases with
    ⟨lost, rfl, rfl⟩ | ⟨solver, draft, found, failed | done⟩
  · exact .atOnce (.taskLost lost)
  · rcases failed with ⟨failure, yields, rfl, rfl⟩
    exact .taskFailed found yields
  · rcases done with ⟨moved, final, yields, announced, like⟩
    have runs : Runs (.task id task) before result final :=
      .taskDone found yields (Action.runs_announce sound announced)
    exact .relabelled (.refl before) runs like

theorem quiet (sound : engine.Sound)
    (carries : Carries engine id task before result after)
    (quiet : before.Quiet) : after.Quiet := by
  rcases (carries.runs sound).settles quiet.settled with ⟨settled, continues⟩
  exact quiet.of_settled settled continues

/-- From its own edit on, an operation takes turn after turn. -/
theorem conducts (sound : engine.Sound)
    (carries : Carries engine id task before result after) {solver : Solver α}
    {draft : Draft α} {moved : List VariableId} (quiet : before.Quiet)
    (found : before.solvers[id]? = some solver)
    (yields : task.edit.Yields ⟨solver, []⟩ (.ok moved) draft) :
    (before.adopt id draft).Undergoes after id (Solver.Goes result) := by
  rcases carries.cases with
    ⟨lost, _, _⟩ | ⟨same, sameDraft, isSame, failed | done⟩
  · rw [found] at lost
    cases lost
  · rcases failed with ⟨failure, fails, _, _⟩
    rw [found] at isSame
    cases isSame
    rw [Edit.Yields, yields] at fails
    cases fails
  · rcases done with ⟨others, final, again, announced, like⟩
    rw [found] at isSame
    cases isSame
    rw [Edit.Yields, yields] at again
    cases again
    have steady := Task.edit_steady _ _ _ _ yields
    have still := (quiet id solver found).of_steady steady
    have own : (before.adopt id draft).At id fun solver =>
        solver.dispatching = false ∧ solver.draining = false :=
      .adopt found ⟨still.dispatching, still.draining⟩
    exact ((Action.runs_announce sound announced).conducts ⟨rfl, own⟩).of_like
      (.refl _) like

end Carries

end Session

/-! ## Commands carry out operations -/

namespace Session

/-- An operation of a solver is carried out, or else no hook is called. -/
inductive Operates (engine : Engine α) (before : World α) (result : Ending α)
    (after : World α) :
    Prop
  | carried {id : SolverId} {task : Task α} (ready : before.Like start)
      (carries : Carries engine id task start result final)
      (done : final.Like after) :
      Operates engine before result after
  | unheard (notes : before.OnlyNotes after) :
      Operates engine before result after

variable {engine : Engine α} {before start final after : World α}

theorem Operates.of_like {result : Ending α} (ready : before.Like start)
    (operates : Operates engine start result final) (done : final.Like after) :
    Operates engine before result after := by
  cases operates with
  | carried first carries last =>
      exact .carried (ready.trans first) carries (last.trans done)
  | unheard notes =>
      have first : before.OnlyNotes start := .of_same ready.history
      exact .unheard ((first.trans notes).trans (.of_same done.history))

theorem carries_of_announceConstraint {id : SolverId}
    {terms : List (Argument × Option α)} {total : Option α}
    {result : Except (Failure α) ConstraintId}
    (yields : (Action.announceConstraint engine id terms total).Yields before
      result after) :
    Carries engine id (.addConstraint terms total) before (ending result)
      after := by
  have added : (Action.addConstraint engine id terms total none).Yields before
      (result.map fun constraint => .constraintId constraint) after := by
    rw [Action.addConstraint_eq, Action.yields_bind]
    cases result with
    | error failure => exact .inl ⟨failure, yields, rfl⟩
    | ok constraint =>
        exact .inr
          ⟨constraint, after, yields, Action.yields_pure.mpr ⟨rfl, rfl⟩⟩
  cases result with
  | error failure => exact .added added
  | ok constraint => exact .added added

theorem operates_of_shaped {β : Type} {command : Command α} {context : Option α}
    {action : Action α β}
    (shaped : Action.Shaped engine context command action) :
    ∀ {before after : World α} {result : Except (Failure α) β},
      action.Yields before result after →
      Operates engine before (ending result) after := by
  induction shaped with
  | throw failure =>
      intro before after result yields
      exact .unheard
        (.of_same (congrArg World.history (Action.yields_throw.mp yields).2))
  | aside _ _ quiet =>
      exact fun yields => .unheard (.of_same (quiet.like yields).history)
  | looking quiet _ induction =>
      intro before after result yields
      rcases Action.yields_bind.mp yields with ⟨failure, failed, rfl⟩
        | ⟨value, middle, done, later⟩
      · exact .unheard (.of_same (quiet.like failed).history)
      · exact (induction value later).of_like (quiet.like done) (.refl after)
  | closing _ closes induction =>
      intro before after result yields
      rcases Action.yields_bind.mp yields with ⟨failure, failed, rfl⟩
        | ⟨value, middle, done, later⟩
      · exact induction failed
      · rcases (closes value).like later with ⟨⟨reply, rfl⟩, like⟩
        exact (induction done).of_like (.refl before) like
  | founding _ _ =>
      intro before after result yields
      rcases Action.yields_addSolver.mp yields with ⟨_, rfl⟩
      exact .unheard (.of_same rfl)
  | changing _ _ =>
      intro before after result yields
      rcases Action.yields_update.mp yields with ⟨_, rfl⟩
      exact .unheard (.of_same rfl)
  | defining _ =>
      intro before after result yields
      rcases Action.yields_addHook.mp yields with ⟨_, rfl⟩
      exact .unheard (.of_same rfl)
  | observing _ => exact fun yields => .unheard (.of_observeNew yields)
  | editing _ _ => exact fun yields => .unheard (.of_edit yields)
  | performing _ =>
      intro before after result yields
      rw [ending_self]
      exact .carried (.refl before) (.performed yields) (.refl after)
  | adding _ =>
      exact fun yields =>
        .carried (.refl _) (carries_of_announceConstraint yields) (.refl _)

theorem operates_of_execute {command : Command α}
    {outcome : Except (Failure α) (Reply α)} (single : command.isBatch = false)
    (yields : (Action.execute engine none command).Yields before outcome
      after) :
    Operates engine before (ending outcome) after := by
  cases command with
  | operation operation =>
      exact operates_of_shaped (Action.operate_shaped operation) yields
  | defineHook label body =>
      exact operates_of_shaped (Action.defineHook_shaped label body) yields
  | observe subject listener label =>
      exact operates_of_shaped
        (Action.observe_shaped subject listener label) yields
  | observeInline subject body label =>
      exact operates_of_shaped
        (Action.observeInline_shaped subject body label) yields
  | batch name body => cases single

end Session

end LiveLinear
