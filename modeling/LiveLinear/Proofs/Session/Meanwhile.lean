import LiveLinear.Proofs.Session.Ledger

namespace LiveLinear

/-! # While hooks are called

What a world goes through while hooks of one solver are called. That solver
carries out tasks and gets other settings; other solvers do as they please. -/

variable {α : Type}

/-- Whether an event belongs to the rounds of a solver. -/
def Event.rounds (id : SolverId) : Event α → Bool
  | .roundBegan solver _ | .hookCalled solver _ _ _ | .hookReturned solver _
  | .roundEnded solver => solver == id
  | .noted _ _ | .commandEnded _ _ => false

namespace Activity

/-- The activities that may go on in a round of the solver. Its hooks are called
only if everything is visible. -/
def Within (visible : Event α → Prop) (id : SolverId) : Activity α → Prop
  | .calls other _ => other = id → ∀ event, visible event
  | .announcement other moved => other = id → moved = []
  | .round other targets => other = id → targets = []
  | .settlement other | .drain other _ => other ≠ id
  | .command .. | .script .. | .task .. => True

variable {visible : Event α → Prop} {id other : SolverId}

theorem Within.isVisible {targets : List VariableId} {event : Event α}
    (within : (Activity.calls other targets : Activity α).Within visible id)
    (foreign : ∀ event : Event α, event.rounds id = false → visible event)
    (own : event.rounds id = (other == id)) : visible event := by
  by_cases same : other = id
  · exact within same event
  · exact foreign event (own.trans (beq_false_of_ne same))

end Activity

variable [Scalar α]

namespace World

abbrev Busy (world : World α) (id : SolverId) : Prop :=
  world.At id fun solver => solver.dispatching = true

/-- One change while hooks of a solver are called. What it puts on record apart
from notes is `visible`. -/
inductive Meanwhile (visible : Event α → Prop) (id : SolverId) :
    World α → World α → Prop
  | relabelled (like : before.Like after) : Meanwhile visible id before after
  | recorded {event : Event α} (isVisible : visible event)
      (unnoted : event.noteOf id = none) :
      Meanwhile visible id world (world.record event)
  | founded (settings : Settings α) :
      Meanwhile visible id world (world.addSolver settings)
  | defined (tag : String) (body : Script α) :
      Meanwhile visible id world (world.addHook tag body)
  | set {other} (change : Settings α → Settings α) :
      Meanwhile visible id world
        (world.change other fun solver => solver.setSettings change)
  | changed {other} {change : Solver α → Solver α} (different : other ≠ id) :
      Meanwhile visible id world (world.change other change)
  | worked {other} {task : Task α} (found : world.solvers[other]? = some solver)
      (yields : task.edit.Yields ⟨solver, []⟩ result draft) :
      Meanwhile visible id world (world.adopt other draft)
  | resumed {other} {draft : Draft α} (different : other ≠ id) :
      Meanwhile visible id world (world.adopt other draft)

/-- Changes of that kind lead from one world to the other, if the solver is in a
round to begin with. -/
def Lasts (visible : Event α → Prop) (id : SolverId) (before after : World α) :
    Prop :=
  before.Busy id → Relation.ReflTransGen (Meanwhile visible id) before after

variable {visible : Event α → Prop} {id : SolverId}
  {before middle after : World α}

theorem Meanwhile.busy (step : Meanwhile visible id before after)
    (busy : before.Busy id) : after.Busy id := by
  cases step with
  | relabelled like => exact busy.of_like like
  | recorded | defined => exact busy
  | founded =>
      rcases busy with ⟨solver, found, dispatching⟩
      exact ⟨solver, getElem?_addSolver_of_some found, dispatching⟩
  | @set _ other =>
      rcases busy with ⟨solver, found, dispatching⟩
      by_cases same : other = id
      · subst other
        exact ⟨_, getElem?_change_self _ found, dispatching⟩
      · exact ⟨solver, (getElem?_change_of_ne _ same).trans found, dispatching⟩
  | changed different =>
      rcases busy with ⟨solver, found, dispatching⟩
      exact ⟨solver, (getElem?_change_of_ne _ different).trans found,
        dispatching⟩
  | @worked _ _ _ _ other _ found yields =>
      by_cases same : other = id
      · subst other
        have steady := Task.edit_steady _ _ _ _ yields
        exact .adopt found (steady.dispatching.trans (busy.holds found))
      · rcases busy with ⟨present, isPresent, dispatching⟩
        exact ⟨present, (getElem?_adopt_of_ne _ same).trans isPresent,
          dispatching⟩
  | resumed different =>
      rcases busy with ⟨solver, found, dispatching⟩
      exact ⟨solver, (getElem?_adopt_of_ne _ different).trans found,
        dispatching⟩

namespace Lasts

theorem refl (world : World α) : world.Lasts visible id world :=
  fun _ => .refl

theorem single (step : Meanwhile visible id before after) :
    before.Lasts visible id after :=
  fun _ => .single step

theorem busy (lasts : before.Lasts visible id after) (busy : before.Busy id) :
    after.Busy id := by
  have steps := lasts busy
  clear lasts
  induction steps with
  | refl => exact busy
  | tail _ step induction => exact step.busy induction

theorem trans (left : before.Lasts visible id middle)
    (right : middle.Lasts visible id after) : before.Lasts visible id after :=
  fun busy => (left busy).trans (right (left.busy busy))

end Lasts

end World

/-- Whatever goes on in a round of a solver, the world changes only as it may
while hooks of the solver are called. -/
theorem Activity.RunsWith.lasts {visible : Event α → Prop} {id : SolverId}
    {known : Activity.Calls α} {activity : Activity α}
    {before after : World α} {result : Ending α}
    (runs : activity.RunsWith known before result after)
    (foreign : ∀ event : Event α, event.rounds id = false → visible event) :
    activity.Within visible id → before.Lasts visible id after := by
  have different : ∀ {others : List VariableId} {acting : SolverId},
      (acting = id → others = []) → others ≠ [] → acting ≠ id :=
    fun nothing some same => some (nothing same)
  have ended : ∀ {world : World α} {command : Command α}
      {outcome : Except (Failure α) (Reply α)},
      world.Lasts visible id (world.record (.commandEnded command outcome)) :=
    .single (.recorded (foreign _ rfl) rfl)
  have began : ∀ {world : World α} {acting : SolverId}
      {targets : List VariableId}, acting ≠ id →
      world.Lasts visible id
        ((world.record (.roundBegan acting targets)).change acting
          fun solver => { solver with dispatching := true }) :=
    fun isOther => .trans
      (.single (.recorded (foreign (.roundBegan _ _)
        (beq_false_of_ne isOther)) rfl))
      (.single (.changed isOther))
  have closed : ∀ {world : World α} {acting : SolverId}
      {close : Solver α → Solver α}, acting ≠ id →
      world.Lasts visible id
        ((world.change acting close).record (.roundEnded acting)) :=
    fun isOther => .trans (.single (.changed isOther))
      (.single (.recorded (foreign _ (beq_false_of_ne isOther)) rfl))
  induction runs with
  | relabelled ready _ done induction =>
      exact fun within => .trans (.single (.relabelled ready))
        (.trans (induction within) (.single (.relabelled done)))
  | atOnce => exact fun _ => .refl _
  | founded => exact fun _ => .single (.founded _)
  | changed => exact fun _ => .single (.set _)
  | asked _ _ induction => exact fun _ => induction trivial
  | defined => exact fun _ => .single (.defined _ _)
  | observed _ induction =>
      exact fun _ => .trans (.single (.defined _ _)) (induction trivial)
  | batched _ _ _ induction =>
      exact fun _ => .trans (.single (.set _))
        (.trans (induction trivial) (.single (.set _)))
  | batchSolved _ _ _ _ ran solved =>
      exact fun _ => .trans (.trans (.single (.set _)) (ran trivial))
        (.trans (.single (.set _)) (solved trivial))
  | stopped _ _ induction => exact fun _ => (induction trivial).trans ended
  | continued _ _ _ first later =>
      exact fun _ => ((first trivial).trans ended).trans (later trivial)
  | taskFailed found yields => exact fun _ => .single (.worked found yields)
  | taskDone found yields _ induction =>
      intro _ busy
      have works : World.Lasts visible id _ _ := .single (.worked found yields)
      refine works.trans (induction ?_) busy
      -- In a round the solver itself announces nothing.
      rintro rfl
      by_contra moved
      cases (busy.holds found).symm.trans (Task.idle_of_moved yields moved)
  | unannounced _ _ round => exact fun within => round within
  | announced some _ _ round settled =>
      exact fun within =>
        (round within).trans (settled (different within some))
  | roundHeld some _ calls | roundBroken some _ calls =>
      intro within
      have isOther := different within some
      exact (began isOther).trans
        ((calls fun same => absurd same isOther).trans (closed isOther))
  | callSkipped _ _ _ later => exact fun within => later within
  | callFailed _ _ _ _ call =>
      exact fun within => .trans
        (.single (.recorded (Within.isVisible within foreign rfl) rfl))
        (call trivial)
  | called _ _ _ _ _ call later =>
      intro within
      have isVisible : ∀ {event : Event α}, event.rounds id = _ →
          visible event := Within.isVisible within foreign
      exact .trans (.trans (.single (.recorded (isVisible rfl) rfl))
        (call trivial)) (.trans (.single (.recorded (isVisible rfl) rfl))
          (later within))
  | settled _ _ _ drains | unsettled _ _ _ drains =>
      exact fun isOther => .trans (.single (.changed isOther))
        (.trans (drains isOther) (.single (.changed isOther)))
  | drainFailed => exact fun isOther => .single (.resumed isOther)
  | drainBroken _ _ _ _ _ round =>
      exact fun isOther => .trans (.single (.resumed isOther))
        (round fun same => absurd same isOther)
  | drainContinued _ _ _ _ _ _ round later =>
      exact fun isOther => .trans (.trans (.single (.resumed isOther))
        (round fun same => absurd same isOther)) (later isOther)

end LiveLinear
