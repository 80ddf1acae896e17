import LiveLinear.Proofs.Session.Outermost
import LiveLinear.Proofs.Solver.Pausing

namespace LiveLinear

/-! # Batches

While a batch is held, automatic solving is off, and nothing that is done on the
way begins a solve or asks for one, unless a solve is ordered as such. Whichever
way the batch is left, automatic solving is as it was; only a batch that found
it on, and does not fail, solves. -/

open Activity (Runs)

variable {α : Type}

/-! ## What is not automatic -/

/-- Whether a command sets automatic solving. -/
def Command.assigns : Command α → Bool
  | .operation (.change _ (.autoSolve _)) => true
  | _ => false

/-- Whether a command orders a solve: by name, or by a question about the
constraints. -/
def Command.orders : Command α → Bool
  | .operation (.solve _) | .operation (.askSolver _ .isOverConstrained)
  | .operation (.askSolver _ .isUnderConstrained)
  | .operation (.askSolver _ .freeVariables) => true
  | _ => false

namespace Event

/-- Whether automatic solving has been set, of whatever solver. -/
def assigns : Event α → Bool
  | .commandEnded command (.ok _) => command.assigns
  | .commandEnded _ (.error _) | .noted _ _ | .roundBegan _ _
      | .hookCalled _ _ _ _ | .hookReturned _ _ | .roundEnded _ => false

/-- Whether a solve has been ordered, or one is taken up that has been put
off. -/
def orders (id : SolverId) : Event α → Bool
  | .commandEnded command _ => command.orders
  | .noted solver .solveTaken => solver == id
  | .noted _ _ | .roundBegan _ _ | .hookCalled _ _ _ _ | .hookReturned _ _
      | .roundEnded _ => false

end Event

theorem Command.Asks.orders_eq {command : Command α} {id : SolverId}
    {task : Task α} (asks : command.Asks id task) :
    command.orders = task.orders := by
  cases asks <;> rfl

theorem SettingChange.Makes.autoSolve_eq {setting : SettingChange α}
    {change : Settings α → Settings α} (makes : setting.Makes change)
    {name : String}
    (spares : (Command.operation (.change name setting)).assigns = false)
    (settings : Settings α) :
    (change settings).autoSolve = settings.autoSolve := by
  cases makes with
  | autoSolve => cases spares
  | refusesContradiction | tolerance | cascadeLimit => rfl

variable [Scalar α]

/-- How automatic solving steers a solver while some events happen, latest
first: it is in the end as it was, and while it is off, no solve begins or is
put off unless `heeds` fails or one is ordered. -/
structure Solver.Steers (id : SolverId) (heeds : Prop) (events : List (Event α))
    (former later : Solver α) : Prop where
  autoSolve : later.settings.autoSolve = former.settings.autoSolve
  pauses (off : former.settings.autoSolve = false) :
    former.Pauses (events.reverse.filterMap (Event.noteOf id)) later
  unordered (off : former.settings.autoSolve = false) (heeded : heeds)
    (free : ∀ event ∈ events, event.orders id = false) :
    ∀ note, .noted id note ∈ events → note.solves = false

namespace World

def Steers (heeds : Prop) (before after : World α) (id : SolverId) : Prop :=
  ∃ events, after.history = events ++ before.history ∧
    ((∀ event ∈ events, event.assigns = false) → ∀ former,
      before.solvers[id]? = some former → ∃ later,
      after.solvers[id]? = some later ∧
      Solver.Steers id heeds events former later)

namespace Steers

variable {world before middle after start final : World α} {id other : SolverId}
  {heeds first second : Prop}

theorem imp (steers : before.Steers first after id) (implies : second → first) :
    before.Steers second after id := by
  rcases steers with ⟨events, history, steers⟩
  refine ⟨events, history, fun unassigned former found => ?_⟩
  rcases steers unassigned former found with ⟨later, isLater, steered⟩
  exact ⟨later, isLater, steered.autoSolve, steered.pauses,
    fun off heeded => steered.unordered off (implies heeded)⟩

theorem trans (left : before.Steers heeds middle id)
    (right : middle.Steers heeds after id) :
    before.Steers heeds after id := by
  rcases left with ⟨earlier, leftHistory, leftSteers⟩
  rcases right with ⟨later, rightHistory, rightSteers⟩
  refine ⟨later ++ earlier, ?_, fun unassigned former found => ?_⟩
  · rw [rightHistory, leftHistory, List.append_assoc]
  · rcases leftSteers (fun event member =>
      unassigned event (List.mem_append_right _ member)) former found with
        ⟨between, isBetween, early⟩
    rcases rightSteers (fun event member =>
      unassigned event (List.mem_append_left _ member)) between isBetween with
        ⟨last, isLast, late⟩
    refine ⟨last, isLast, late.autoSolve.trans early.autoSolve, fun off => ?_,
      fun off heeded free note member => ?_⟩
    · rw [List.reverse_append, List.filterMap_append]
      exact (early.pauses off).trans (late.pauses (early.autoSolve.trans off))
    · rcases List.mem_append.mp member with inLater | inEarlier
      · exact late.unordered (early.autoSolve.trans off) heeded
          (fun event member => free event (List.mem_append_left _ member)) note
          inLater
      · exact early.unordered off heeded
          (fun event member => free event (List.mem_append_right _ member)) note
          inEarlier

theorem of_like (steers : start.Steers heeds final id)
    (ready : before.Like start) (done : final.Like after) :
    before.Steers heeds after id := by
  rcases steers with ⟨events, history, steers⟩
  refine ⟨events, ?_, fun unassigned former found => ?_⟩
  · rw [done.history, history, ready.history]
  · rw [← ready.solvers] at found
    rcases steers unassigned former found with ⟨later, isLater, steered⟩
    rw [← done.solvers] at isLater
    exact ⟨later, isLater, steered⟩

theorem of_marks (events : List (Event α))
    (history : after.history = events ++ before.history)
    (unnoted : ∀ event ∈ events, event.noteOf id = none)
    (marks : ∀ solver, before.solvers[id]? = some solver → ∃ later,
      after.solvers[id]? = some later ∧ solver.SameContents later ∧
      later.settings.autoSolve = solver.settings.autoSolve) :
    before.Steers heeds after id := by
  refine ⟨events, history, fun _ former found => ?_⟩
  rcases marks former found with ⟨later, isLater, same, autoSolve⟩
  have nothing : events.reverse.filterMap (Event.noteOf id) = [] :=
    List.filterMap_eq_nil_iff.mpr fun event member =>
      unnoted event (List.mem_reverse.mp member)
  refine ⟨later, isLater, autoSolve, fun off => ?_, fun _ _ _ note member => ?_⟩
  · rw [nothing]
    exact .marked same (autoSolve.trans off)
  · have impossible := unnoted _ member
    simp [Event.noteOf] at impossible

theorem of_same (events : List (Event α))
    (history : after.history = events ++ before.history)
    (unnoted : ∀ event ∈ events, event.noteOf id = none)
    (same : ∀ solver, before.solvers[id]? = some solver →
      after.solvers[id]? = some solver) :
    before.Steers heeds after id :=
  of_marks events history unnoted fun solver found =>
    ⟨solver, same solver found, ⟨rfl, rfl, rfl, rfl⟩, rfl⟩

theorem refl (world : World α) (id : SolverId) : world.Steers heeds world id :=
  of_same [] rfl (by simp) fun _ found => found

theorem record {event : Event α} (unnoted : event.noteOf id = none) :
    world.Steers heeds (world.record event) id :=
  of_same [event] rfl (by simpa using unnoted) fun _ found => found

theorem change_of_ne {change : Solver α → Solver α} (different : other ≠ id) :
    world.Steers heeds (world.change other change) id := by
  refine of_same [] rfl (by simp) fun solver found => ?_
  rw [getElem?_change_of_ne change different]
  exact found

theorem mark {change : Solver α → Solver α}
    (same : ∀ solver : Solver α, solver.SameContents (change solver))
    (autoSolve : ∀ solver,
      (change solver).settings.autoSolve = solver.settings.autoSolve) :
    world.Steers heeds (world.change other change) id := by
  by_cases isSelf : other = id
  · subst other
    exact of_marks [] rfl (by simp) fun solver found =>
      ⟨_, getElem?_change_self change found, same solver, autoSolve solver⟩
  · exact change_of_ne isSelf

/-- An edit of some solver is carried out. -/
theorem adopt {solver : Solver α} {draft : Draft α}
    (found : world.solvers[other]? = some solver)
    (autoSolve : draft.solver.settings.autoSolve = solver.settings.autoSolve)
    (pauses : solver.settings.autoSolve = false →
      solver.Pauses draft.notes.reverse draft.solver)
    (unordered : other = id → solver.settings.autoSolve = false → heeds →
      (∀ note ∈ draft.notes, note ≠ .solveTaken) →
      ∀ note ∈ draft.notes, note.solves = false) :
    world.Steers heeds (world.adopt other draft) id := by
  by_cases same : other = id
  · subst other
    refine ⟨draft.notes.map (.noted id), rfl, fun _ former isFormer => ?_⟩
    rw [found] at isFormer
    cases isFormer
    refine ⟨draft.solver, getElem?_adopt_self draft found, autoSolve,
      fun off => ?_, fun off heeded free note member => ?_⟩
    · rw [← List.map_reverse, Accounts.filterMap_noted_self]
      exact pauses off
    · rcases List.mem_map.mp member with ⟨made, isMade, isNote⟩
      cases isNote
      refine unordered rfl off heeded (fun taken isThere => ?_) note isMade
      rintro rfl
      have untaken := free _ (List.mem_map_of_mem isThere)
      simp [Event.orders] at untaken
  · refine of_same (draft.notes.map (.noted other)) rfl ?_
      fun present isPresent => ?_
    · intro event member
      rcases List.mem_map.mp member with ⟨note, _, rfl⟩
      exact if_neg same
    · rw [getElem?_adopt_of_ne draft same]
      exact isPresent

theorem worked {task : Task α} {solver : Solver α} {draft : Draft α}
    {result : Except (Failure α) (List VariableId)}
    (found : world.solvers[other]? = some solver)
    (yields : task.edit.Yields ⟨solver, []⟩ result draft) :
    world.Steers (other = id → task.orders = false) (world.adopt other draft)
      id := by
  refine adopt found
    (congrArg Settings.autoSolve (Task.edit_steady _ _ _ _ yields).settings)
    (fun off => .asked off yields) fun same off heeded _ note member => ?_
  rcases (Task.pausing (heeded same) _ _ _ yields off).2 with
    ⟨notes, isNotes, pausing⟩
  rw [isNotes, List.append_nil] at member
  exact pausing note member

theorem served {work : Edit α (List VariableId)} {solver : Solver α}
    {draft : Draft α} {result : Except (Failure α) (List VariableId)}
    (found : world.solvers[other]? = some solver)
    (next : solver.nextDeferred = some work)
    (yields : work.Yields ⟨solver, []⟩ result draft) :
    world.Steers heeds (world.adopt other draft) id := by
  refine adopt found
    (congrArg Settings.autoSolve
      (Solver.takes_of_nextDeferred next yields).settings)
    (fun off => .served off next yields) fun _ off _ untaken note member => ?_
  rcases Solver.nextDeferred_cases next with ⟨target, value, rest, _, rfl⟩
    | ⟨_, _, rfl⟩
  · rcases (Edit.takeValue_pausing target value rest _ _ _ yields off).2 with
      ⟨notes, isNotes, pausing⟩
    rw [isNotes, List.append_nil] at member
    exact pausing note member
  · rw [Edit.takeSolve, Edit.yields_note_bind] at yields
    rcases (Edit.writeSolution_cases yields).2 with ⟨notes, isNotes, _⟩
    have taken : Note.solveTaken ∈ draft.notes := by
      rw [isNotes]
      exact List.mem_append_right _ (List.mem_singleton_self _)
    exact absurd rfl (untaken _ taken)

/-- A command ends. If it has ordered a solve, that is on record. -/
theorem ended {command : Command α} {outcome : Except (Failure α) (Reply α)}
    (steers : before.Steers (command.orders = false) after id) :
    before.Steers heeds (after.record (.commandEnded command outcome)) id := by
  rcases steers with ⟨events, history, steers⟩
  refine ⟨.commandEnded command outcome :: events,
    congrArg (List.cons _) history, fun unassigned former found => ?_⟩
  rcases steers (fun event member =>
    unassigned event (List.mem_cons_of_mem _ member)) former found with
      ⟨later, isLater, steered⟩
  refine ⟨later, isLater, steered.autoSolve, fun off =>
    ?_, fun off _ free note member => ?_⟩
  · have pauses := steered.pauses off
    rw [List.reverse_cons, List.filterMap_append, List.filterMap_cons_none rfl,
      List.filterMap_nil, List.append_nil]
    exact pauses
  · refine steered.unordered off (free _ List.mem_cons_self)
      (fun event isThere => free event (List.mem_cons_of_mem _ isThere)) note ?_
    rcases List.mem_cons.mp member with impossible | isThere
    · cases impossible
    · exact isThere

theorem assigned {event : Event α} (assigns : event.assigns = true)
    (earlier : before.Accounts middle)
    (rest : (middle.record event).Accounts after) :
    before.Steers heeds after id := by
  rcases earlier with ⟨older, isMiddle, _⟩
  rcases rest with ⟨newer, isAfter, _⟩
  refine ⟨newer ++ event :: older, ?_, fun unassigned => ?_⟩
  · rw [isAfter, World.record, isMiddle, List.append_assoc, List.cons_append]
  · have impossible :=
      unassigned event (List.mem_append_right _ List.mem_cons_self)
    cases assigns.symm.trans impossible

theorem of_on {solver : Solver α} (found : before.solvers[id]? = some solver)
    (on : solver.settings.autoSolve = true)
    (steers : before.Steers first after id) :
    before.Steers second after id := by
  rcases steers with ⟨events, history, steers⟩
  refine ⟨events, history, fun unassigned former isFormer => ?_⟩
  rcases steers unassigned former isFormer with ⟨later, isLater, steered⟩
  rw [found] at isFormer
  cases isFormer
  exact ⟨later, isLater, steered.autoSolve, steered.pauses, fun off =>
    absurd (on.symm.trans off) Bool.noConfusion⟩

/-- A batch leaves automatic solving as it finds it. -/
theorem batch {solver : Solver α} (found : before.solvers[other]? = some solver)
    (held : (before.change other fun solver => solver.setAuto false).Steers
      heeds after id) :
    before.Steers heeds
      (after.change other fun later => later.setAuto solver.settings.autoSolve)
        id := by
  by_cases same : other = id
  · subst other
    rcases held with ⟨events, history, steers⟩
    refine ⟨events, history, fun unassigned former isFormer => ?_⟩
    rw [found] at isFormer
    cases isFormer
    rcases steers unassigned _ (getElem?_change_self _ found) with
      ⟨later, isLater, steered⟩
    refine ⟨_, getElem?_change_self _ isLater, rfl, fun off => ?_, fun _ =>
      steered.unordered rfl⟩
    have begins : solver.Pauses [] (solver.setAuto false) :=
      .marked ⟨rfl, rfl, rfl, rfl⟩ rfl
    have ends : later.Pauses [] (later.setAuto solver.settings.autoSolve) :=
      .marked ⟨rfl, rfl, rfl, rfl⟩ off
    have pauses := (begins.trans (steered.pauses rfl)).trans ends
    rw [List.nil_append, List.append_nil] at pauses
    exact pauses
  · exact ((change_of_ne same).trans held).trans (change_of_ne same)

theorem round {targets : List VariableId} {close : Solver α → Solver α}
    (same : ∀ solver : Solver α, solver.SameContents (close solver))
    (autoSolve : ∀ solver,
      (close solver).settings.autoSolve = solver.settings.autoSolve)
    (calls : Steers heeds
      ((before.record (.roundBegan other targets)).change other
        fun solver => { solver with dispatching := true })
      after id) :
    before.Steers heeds ((after.change other close).record (.roundEnded other))
      id := by
  have begins : before.Steers heeds
      ((before.record (.roundBegan other targets)).change other
        fun solver => { solver with dispatching := true }) id :=
    (record rfl).trans (mark (fun _ => ⟨rfl, rfl, rfl, rfl⟩) fun _ => rfl)
  exact (begins.trans calls).trans ((mark same autoSolve).trans (record rfl))

theorem settlement {close : Solver α → Solver α}
    (same : ∀ solver : Solver α, solver.SameContents (close solver))
    (autoSolve : ∀ solver,
      (close solver).settings.autoSolve = solver.settings.autoSolve)
    (drains : Steers heeds
      (before.change other fun solver => { solver with draining := true })
      after id) :
    before.Steers heeds (after.change other close) id := by
  have begins : before.Steers heeds
      (before.change other fun solver => { solver with draining := true }) id :=
    mark (fun _ => ⟨rfl, rfl, rfl, rfl⟩) fun _ => rfl
  exact (begins.trans drains).trans (mark same autoSolve)

end Steers

end World

/-! ## Activities -/

def Activity.Heeds (id : SolverId) : Activity α → Prop
  | .command _ issued => issued.orders = false
  | .task other given => other = id → given.orders = false
  | .script .. | .announcement .. | .round .. | .calls .. | .settlement ..
      | .drain .. => True

def Activity.Spares (result : Ending α) : Activity α → Prop
  | .command _ issued => issued.assigns = true → result ≠ .ok ()
  | .script .. | .task .. | .announcement .. | .round .. | .calls ..
      | .settlement .. | .drain .. =>
      True

/-- Whatever goes on, automatic solving steers each solver. -/
theorem Activity.RunsWith.steers {known : Activity.Calls _}
    {activity : Activity α} {before after : World α} {result : Ending α}
    (runs : activity.RunsWith known before result after) (id : SolverId) :
    activity.Spares result → before.Steers (activity.Heeds id) after id := by
  induction runs with
  | relabelled ready _ done induction =>
      exact fun spares => (induction spares).of_like ready done
  | atOnce =>
      exact fun _ => .refl _ id
  | founded =>
      exact fun _ => .of_same [] rfl (by simp)
        fun _ found => World.getElem?_addSolver_of_some found
  | changed makes =>
      intro spares
      have unassigned := Bool.eq_false_iff.mpr fun assigns => spares assigns rfl
      exact .mark (fun _ => ⟨rfl, rfl, rfl, rfl⟩) fun solver =>
        makes.autoSolve_eq unassigned solver.settings
  | asked asks _ induction =>
      exact fun _ => (induction trivial).imp fun heeds _ =>
        asks.orders_eq.symm.trans heeds
  | defined => exact fun _ => .of_same [] rfl (by simp) fun _ found => found
  | observed _ induction =>
      exact fun _ => .trans (.of_same [] rfl (by simp) fun _ found => found)
        ((induction trivial).imp fun _ _ => rfl)
  | batched found _ _ induction =>
      exact fun _ => .batch found ((induction trivial).imp fun _ => trivial)
  | @batchSolved _ solver _ _ _ _ _ _ other found _ on _ ran solved =>
      intro _
      have block := World.Steers.batch found (ran trivial)
      by_cases same : other = id
      · subst other
        exact .of_on found on
          ((block.imp fun _ => trivial).trans (solved trivial))
      · exact (block.imp fun _ => trivial).trans
          ((solved trivial).imp fun _ isSame => absurd isSame same)
  | stopped _ failed induction =>
      intro _
      refine .ended (induction fun _ isOk => ?_)
      rw [failed] at isOk
      cases isOk
  | @continued _ _ _ _ _ _ _ command outcome ran _ later first rest =>
      intro _
      by_cases assigned : (Event.commandEnded command outcome).assigns = true
      · exact .assigned assigned ran.accounts later.accounts
      · refine (World.Steers.ended (first fun assigns failed => ?_)).trans
          (rest trivial)
        cases outcome with
        | ok reply => exact assigned assigns
        | error failure => cases failed
  | taskFailed found yields => exact fun _ => .worked found yields
  | taskDone found yields _ induction =>
      exact fun _ => (World.Steers.worked found yields).trans
        ((induction trivial).imp fun _ => trivial)
  | unannounced _ _ round => exact round
  | announced _ _ _ round settled =>
      exact fun _ => (round trivial).trans (settled trivial)
  | roundHeld _ _ calls | roundBroken _ _ calls =>
      exact fun _ =>
        .round (fun _ => ⟨rfl, rfl, rfl, rfl⟩) (fun _ => rfl) (calls trivial)
  | callSkipped _ _ _ later => exact later
  | callFailed _ _ _ _ call =>
      exact fun _ => .trans (.record rfl) (call trivial)
  | called _ _ _ _ _ call later =>
      exact fun _ =>
        .trans (.trans (.record rfl) (call trivial))
          (.trans (.record rfl) (later trivial))
  | settled _ _ _ drains | unsettled _ _ _ drains =>
      exact fun _ =>
        .settlement (fun _ => ⟨rfl, rfl, rfl, rfl⟩) (fun _ => rfl)
          (drains trivial)
  | drainFailed found next _ yields => exact fun _ => .served found next yields
  | drainBroken found next _ yields _ round =>
      exact fun _ =>
        (World.Steers.served found next yields).trans (round trivial)
  | drainContinued found next _ yields _ _ round later =>
      exact fun _ =>
        ((World.Steers.served found next yields).trans (round trivial)).trans
          (later trivial)

/-! ## One batch -/

/-- A batch holds a block with automatic solving off, sets automatic solving
back, and solves where it was on and the block has not failed. -/
theorem Action.batch_cases {engine : Engine α} {context : Option α}
    {name : String} {body : Script α} {before after : World α}
    {outcome : Except (Failure α) (Reply α)} {id : SolverId} {solver : Solver α}
    (bound : before.labels.solvers.get? name = some id)
    (found : before.solvers[id]? = some solver)
    (yields : (execute engine context (.batch name body)).Yields before outcome
      after) :
    ∃ block middle leaving,
      (executeScript engine context body).Yields
        (before.change id fun solver => solver.setAuto false) block middle ∧
      leaving = (middle.change id fun later =>
        later.setAuto solver.settings.autoSolve) ∧
      (((block ≠ .ok () ∨ solver.settings.autoSolve = false) ∧
          ending outcome = block ∧ after = leaving) ∨
        block = .ok () ∧ solver.settings.autoSolve = true ∧
          (perform engine id Edit.writeSolution).Yields leaving (ending outcome)
            after) := by
  rw [execute, solverNamed, yields_lookUp_bind bound] at yields
  have rest := yields_solver_bind_of_some found yields
  simp only [yields_update_bind, yields_outcome_bind] at rest
  rcases rest with ⟨block, middle, ran, closing⟩
  refine ⟨block, middle, _, ran, rfl, ?_⟩
  cases block with
  | error failure =>
      rcases yields_throw.mp closing with ⟨rfl, rfl⟩
      exact .inl ⟨.inl (by simp), rfl, rfl⟩
  | ok value =>
      rw [ofOutcome, yields_pure_bind] at closing
      split at closing
      · next on =>
          refine .inr ⟨rfl, on, ?_⟩
          rcases yields_bind.mp closing with ⟨failure, failed, rfl⟩
            | ⟨_, last, done, replying⟩
          · exact failed
          · rcases yields_pure.mp replying with ⟨rfl, rfl⟩
            exact done
      · next off =>
          rcases yields_pure.mp closing with ⟨rfl, rfl⟩
          exact .inl ⟨.inr (by simpa using off), rfl, rfl⟩

namespace World.Steers

variable {before after : World α} {id : SolverId} {heeds : Prop}
  {solver : Solver α} {events : List (Event α)}

theorem at_of_history (steers : before.Steers heeds after id)
    (history : after.history = events ++ before.history)
    (unassigned : ∀ event ∈ events, event.assigns = false)
    (found : before.solvers[id]? = some solver) :
    ∃ later, after.solvers[id]? = some later ∧
      Solver.Steers id heeds events solver later := by
  rcases steers with ⟨others, isHistory, steers⟩
  have same : others = events :=
    List.append_cancel_right (isHistory.symm.trans history)
  subst same
  exact steers unassigned solver found

end World.Steers

namespace Session

open Solver (Goes)

variable {engine : Engine α} {before after : World α} {id : SolverId}
  {left : Solver α} {result : Ending α}

theorem perform_of_busy (found : before.solvers[id]? = some left)
    (busy : left.dispatching = true)
    (yields : (Action.perform engine id Edit.writeSolution).Yields before result
      after) :
    result = .ok () ∧
      after = before.adopt id ⟨{ left with resolvePending := true },
        [.solveDeferred]⟩ := by
  have deferred : Edit.writeSolution.Yields ⟨left, []⟩ (.ok [])
      ⟨{ left with resolvePending := true }, [.solveDeferred]⟩ := by
    simp only [Edit.writeSolution, Edit.yields_current_bind, busy, if_true,
      Edit.yields_update_bind, Edit.yields_note_bind, Edit.yields_pure,
      and_self]
  rw [Action.perform,
    Action.yields_bind_of_ok (Action.edit_of_yields found deferred)] at yields
  exact Action.yields_pure.mp yields

/-- A solve that is asked for outside of rounds begins once. What its solver
does after that is to take up the work that its hooks put off. -/
theorem perform_of_idle (sound : engine.Sound)
    (found : before.solvers[id]? = some left)
    (idle : left.dispatching = false ∧ left.draining = false)
    (yields : (Action.perform engine id Edit.writeSolution).Yields before result
      after) :
    ∃ solved draft, Edit.writeSolution.Yields ⟨left, []⟩ solved draft ∧
      draft.notes.countP Note.solves = 1 ∧
      ((∃ failure, solved = .error failure ∧ result = .error failure ∧
          after = before.adopt id draft) ∨
        ∃ moved, solved = .ok moved ∧
          (before.adopt id draft).Undergoes after id (Goes result)) := by
  have begins : ∀ {solved draft},
      Edit.writeSolution.Yields ⟨left, []⟩ solved draft →
      draft.notes.countP Note.solves = 1 := by
    intro solved draft edited
    rcases Edit.writeSolution_begins idle.1 edited with
      ⟨rows, columns, notes, isNotes, silent⟩
    have none : notes.countP Note.solves = 0 :=
      List.countP_eq_zero.mpr fun note member =>
        Bool.eq_false_iff.mp (silent note member)
    rw [isNotes, List.countP_append, none]
    rfl
  rcases Action.yields_bind.mp yields with ⟨failure, failed, rfl⟩
    | ⟨moved, middle, done, rest⟩
  · rcases Action.yields_edit.mp failed with
      ⟨lost, _⟩ | ⟨same, draft, isSame, edited, rfl⟩
    · cases found.symm.trans lost
    · rw [found] at isSame
      cases isSame
      exact ⟨_, draft, edited, begins edited, .inl ⟨failure, rfl, rfl, rfl⟩⟩
  · rcases Action.yields_edit.mp done with
      ⟨lost, _⟩ | ⟨same, draft, isSame, edited, rfl⟩
    · cases found.symm.trans lost
    · rw [found] at isSame
      cases isSame
      have marks := (Edit.writeSolution_cases edited).1.marks
      have own : (before.adopt id draft).At id fun solver =>
          solver.dispatching = false ∧ solver.draining = false :=
        .adopt found ⟨marks.2.2.1.trans idle.1, marks.2.2.2.1.trans idle.2⟩
      exact ⟨_, draft, edited, begins edited,
        .inr
        ⟨moved, rfl, (Action.runs_announce sound rest).conducts ⟨rfl, own⟩⟩⟩

theorem exists_left {context : Option α} {script : Script α} {solver : Solver α}
    {middle : World α} (sound : engine.Sound) (settled : before.Settled)
    (found : before.solvers[id]? = some solver)
    (ran : (Action.executeScript engine context script).Yields
      (before.change id fun solver => solver.setAuto false) result middle) :
    ∃ left,
        (middle.change id fun later =>
          later.setAuto solver.settings.autoSolve).solvers[id]? = some left ∧
            left.settings.autoSolve = solver.settings.autoSolve ∧
      left.dispatching = solver.dispatching ∧ left.Settled := by
  have runs := Action.executeScript_runs sound context script _ _ _ ran
  rcases runs.settles (World.Settled.setSettings settled) with
    ⟨settledAfter, continues⟩
  rcases continues.old id _ (World.getElem?_change_self _ found) with
    ⟨later, isLater, phase⟩
  exact ⟨_, World.getElem?_change_self _ isLater, rfl, phase.dispatching,
    settledAfter id later isLater⟩

/-- Whatever its block does, a batch that is held in any settled world sets
automatic solving back when it is left, and if nobody sets it on the way, it
stays so until the end. While the block runs, without anybody setting it,
automatic solving is off: whatever is done to the solver finds it off, and then
no solve begins or is asked for, unless a solve is ordered as such. If the block
fails, or automatic solving was off before, nothing happens when the batch is
left. Otherwise its solver solves: inside a hook one solve is put off, and that
is all; elsewhere one solve begins, after which the solver only takes up the
work that its hooks put off. -/
theorem batch_suspends (patience depth : Nat) :
    (∀ (solver : Solver α) (draft : Draft α),
      solver.settings.autoSolve = false →
      (∀ (task : Task α) (result : Except (Failure α) (List VariableId)),
        task.orders = false → task.edit.Yields ⟨solver, []⟩ result draft →
        ∀ note ∈ draft.notes, note.solves = false) ∧
      ∀ target value rest (result : Except (Failure α) (List VariableId)),
        (Edit.takeValue target value rest).Yields ⟨solver, []⟩ result draft →
        ∀ note ∈ draft.notes, note.solves = false) ∧
    ∀ (context : Option α) (name : String) (body : Script α)
      (before after : World α) (outcome : Except (Failure α) (Reply α))
      (id : SolverId) (solver : Solver α), before.Settled →
      before.labels.solvers.get? name = some id →
      before.solvers[id]? = some solver →
      (Action.execute (.ofDepth patience depth) context
        (.batch name body)).Yields before outcome after →
      ∃ block middle leaving left,
        (Action.executeScript (.ofDepth patience depth) context body).Yields
          (before.change id fun solver => solver.setAuto false) block middle ∧
        leaving = (middle.change id fun later =>
          later.setAuto solver.settings.autoSolve) ∧
        leaving.solvers[id]? = some left ∧
        left.settings.autoSolve = solver.settings.autoSolve ∧
        (∀ events, after.history = events ++ leaving.history →
          (∀ event ∈ events, event.assigns = false) →
          after.At id fun later =>
            later.settings.autoSolve = solver.settings.autoSolve) ∧
        (∀ events, middle.history = events ++ before.history →
          (∀ event ∈ events, event.assigns = false) →
          (middle.At id fun later => later.settings.autoSolve = false ∧
            (solver.setAuto false).Pauses
              (events.reverse.filterMap (Event.noteOf id)) later) ∧
          ((∀ event ∈ events, event.orders id = false) →
            ∀ note, .noted id note ∈ events → note.solves = false)) ∧
        (block ≠ .ok () ∨ solver.settings.autoSolve = false →
          ending outcome = block ∧ after = leaving) ∧
        (block = .ok () → solver.settings.autoSolve = true →
          solver.dispatching = true →
          ending outcome = .ok () ∧ after = leaving.adopt id
            ⟨{ left with resolvePending := true }, [.solveDeferred]⟩) ∧
        (block = .ok () → solver.settings.autoSolve = true →
          solver.dispatching = false →
          left.Rested ∧ ∃ solved draft,
            Edit.writeSolution.Yields ⟨left, []⟩ solved draft ∧
            draft.notes.countP Note.solves = 1 ∧
            ((∃ failure, solved = .error failure ∧
                ending outcome = .error failure ∧
                after = leaving.adopt id draft) ∨
              ∃ moved, solved = .ok moved ∧
                (leaving.adopt id draft).Undergoes after id
                  (Goes (ending outcome)))) := by
  have sound : (Engine.ofDepth patience depth : Engine α).Sound :=
    Engine.ofDepth_sound patience depth
  refine ⟨fun solver draft off => ⟨?_, ?_⟩, ?_⟩
  · intro task result unordered yields note member
    rcases (Task.pausing unordered _ _ _ yields off).2 with
      ⟨notes, isNotes, pausing⟩
    rw [isNotes, List.append_nil] at member
    exact pausing note member
  · intro target value rest result yields note member
    rcases (Edit.takeValue_pausing target value rest _ _ _ yields off).2 with
      ⟨notes, isNotes, pausing⟩
    rw [isNotes, List.append_nil] at member
    exact pausing note member
  · intro context name body before after outcome id solver settled bound
      found yields
    rcases Action.batch_cases bound found yields with
      ⟨block, middle, leaving, ran, rfl, closing⟩
    rcases exists_left sound settled found ran with
      ⟨left, isLeft, autoSolve, dispatching, stays⟩
    refine ⟨block, middle, _, left, ran, rfl, isLeft, autoSolve, ?_, ?_, ?_,
      ?_, ?_⟩
    · intro events history unassigned
      rcases closing with ⟨_, _, rfl⟩ | ⟨_, _, performed⟩
      · exact ⟨left, isLeft, autoSolve⟩
      · have solve : Runs (.task id .solve) _ _ after :=
          Action.runs_perform sound performed
        rcases (solve.steers id trivial).at_of_history history unassigned
          isLeft with
          ⟨later, isLater, steered⟩
        exact ⟨later, isLater, steered.autoSolve.trans autoSolve⟩
    · intro events history unassigned
      have runs := Action.executeScript_runs sound context body _ _ _ ran
      rcases (runs.steers id trivial).at_of_history history unassigned
        (World.getElem?_change_self _ found) with ⟨later, isLater, steered⟩
      exact ⟨⟨later, isLater, steered.autoSolve, steered.pauses rfl⟩,
        steered.unordered rfl trivial⟩
    · rintro (failed | off)
      · rcases closing with ⟨_, ended⟩ | ⟨done, _⟩
        · exact ended
        · exact absurd done failed
      · rcases closing with ⟨_, ended⟩ | ⟨_, on, _⟩
        · exact ended
        · cases on.symm.trans off
    · intro done on busy
      rcases closing with ⟨failed | off, _⟩ | ⟨_, _, performed⟩
      · exact absurd done failed
      · cases on.symm.trans off
      · exact perform_of_busy isLeft (dispatching.trans busy) performed
    · intro done on idle
      rcases closing with ⟨failed | off, _⟩ | ⟨_, _, performed⟩
      · exact absurd done failed
      · cases on.symm.trans off
      · have rests := stays (dispatching.trans idle)
        exact ⟨rests.2,
          perform_of_idle sound isLeft ⟨dispatching.trans idle, rests.1⟩
          performed⟩

/-- A world in which the hook of `x` changes the sum of the constraint between
`x` and `y`. -/
def heldWorld : World ℚ :=
  ((play (.ofDepth 9 3) .empty
    [.operation (.newSolver "s" true true (.literal (some 0)) 10),
      .operation (.addVariable "s" "x" none (.literal (some 1))),
      .operation (.addVariable "s" "y" none (.literal (some 2))),
      .operation (.addConstraint "s" (some "c")
        [(.label "x", .literal (some 1)), (.label "y", .literal (some 1))]
        (.literal (some 3))),
      .observeInline "x"
        (.ofList
          [(.operation (.setSum "c" (.literal (some 7)) .chained), false)])
        none]).getLast?.map Step.world).getD .empty

/-- A block that changes a sum, holds a batch of its own that fails, and sets
`x`. -/
def heldBlock : Script ℚ :=
  .ofList
    [(.operation (.setSum "c" (.literal (some 10)) .chained), false),
      (.batch "s" (.ofList [(.operation (.lock "x"), false),
        (.operation (.raise .runtime "no"), false)]), true),
      (.operation (.setValue "x" (.literal (some 4)) .chained), false)]

theorem batch_suspends_heldWorld :
    (∃ solver : Solver ℚ, ∃ result draft, solver.settings.autoSolve = false ∧
      (Task.setSum ⟨0, 0⟩ (some 9)).edit.Yields ⟨solver, []⟩ result draft ∧
      ∀ note ∈ draft.notes, note.solves = false) ∧
    ∃ solver reply after, heldWorld.solvers[0]? = some solver ∧
      solver.settings.autoSolve = true ∧
      (Action.execute (.ofDepth 9 3) none (.batch "s" heldBlock)).Yields
        heldWorld (.ok reply) after ∧
      ∃ middle left events solved draft,
        (Action.executeScript (.ofDepth 9 3) none heldBlock).Yields
          (heldWorld.change 0 fun solver => solver.setAuto false) (.ok ())
            middle ∧
        middle.history = events ++ heldWorld.history ∧ events.length = 10 ∧
        (∀ note, .noted 0 note ∈ events → note.solves = false) ∧
        (middle.change 0 fun later => later.setAuto true).solvers[0]? =
          some left ∧ Edit.writeSolution.Yields ⟨left, []⟩ solved draft ∧
        draft.notes.countP Note.solves = 1 := by
  rcases @batch_suspends ℚ _ 9 3 with ⟨silent, suspends⟩
  have isThere : heldWorld.solvers[0]?.isSome = true := by decide +kernel
  have suited : ∀ solver ∈ heldWorld.solvers[0]?,
      solver.settings.autoSolve = true ∧ solver.dispatching = false := by
    decide +kernel
  rcases Option.isSome_iff_exists.mp isThere with ⟨solver, found⟩
  rcases suited solver found with ⟨on, idle⟩
  have sound : (Engine.ofDepth 9 3 : Engine ℚ).Sound := Engine.ofDepth_sound 9 3
  constructor
  · rcases isEdited :
      (Task.setSum ⟨0, 0⟩ (some 9)).edit.run ⟨solver.setAuto false, []⟩ with
      ⟨result, draft⟩
    exact ⟨solver.setAuto false, result, draft, rfl, isEdited,
      (silent (solver.setAuto false) draft rfl).1 _ result rfl isEdited⟩
  have settled : heldWorld.Settled :=
    World.Quiet.settled ((Reached.of_last _ _).quiet sound)
  have bound : heldWorld.labels.solvers.get? "s" = some 0 := by decide +kernel
  have ended : ((Action.execute (.ofDepth 9 3) none
      (.batch "s" heldBlock)).done? heldWorld).isSome = true := by
    decide +kernel
  have blockRan :
      ∀ block ∈ (Action.executeScript (.ofDepth 9 3) none heldBlock).done?
        (heldWorld.change 0 fun solver => solver.setAuto false),
        block.2.history.length - heldWorld.history.length = 10 ∧
        ∀ event ∈ block.2.history.take (block.2.history.length -
          heldWorld.history.length), event.assigns = false ∧
        event.orders 0 = false := by
    decide +kernel
  rcases Option.isSome_iff_exists.mp ended with ⟨⟨reply, after⟩, done⟩
  have yields := Action.yields_of_done? done
  rcases suspends none "s" heldBlock heldWorld after (.ok reply) 0 solver
    settled bound found yields with
    ⟨block, middle, _, left, ran, rfl, isLeft, _, _, during, unsolved, _,
      solves⟩
  have unfailed : block = .ok () := by
    by_contra failed
    exact failed (unsolved (.inl failed)).1.symm
  subst unfailed
  rcases blockRan _ (Action.done?_of_yields ran) with ⟨count, calm⟩
  have runs := Action.executeScript_runs sound none heldBlock _ _ _ ran
  rcases runs.accounts with ⟨events, history, _⟩
  have added : middle.history = events ++ heldWorld.history := history
  have isEvents : middle.history.take
      (middle.history.length - heldWorld.history.length) = events := by
    rw [added, List.length_append, Nat.add_sub_cancel]
    exact List.take_left
  rw [isEvents] at calm
  rw [added, List.length_append, Nat.add_sub_cancel] at count
  have quiet :=
    (during events added fun event member => (calm event member).1).2
      fun event member => (calm event member).2
  rcases (solves rfl on idle).2 with ⟨solved, draft, edited, once, _⟩
  rw [on] at isLeft
  exact ⟨solver, reply, after, found, on, yields, middle, left, events, solved,
    draft, ran, added, count, quiet, isLeft, edited, once⟩

end Session

end LiveLinear
