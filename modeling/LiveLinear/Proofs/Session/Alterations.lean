import LiveLinear.Proofs.Session.Ways
import LiveLinear.Proofs.Solver.Evolution

namespace LiveLinear

/-! # Alterations

The changes of a world that all activities come down to. What each of them keeps
is kept by every activity. -/

variable {α : Type}

/-- The note about a solver that an event consists of. -/
def Event.noteOf (id : SolverId) : Event α → Option (Note α)
  | .noted solver note => if solver = id then some note else none
  | _ => none

/-- Marks and settings of a solver are changed at most: its number and what it
holds stay, and it does not put off anything more. -/
structure Solver.Marks (change : Solver α → Solver α) : Prop where
  contents : ∀ solver : Solver α, solver.SameContents (change solver) := by
    exact fun _ => ⟨rfl, rfl, rfl, rfl⟩
  id : ∀ solver : Solver α, (change solver).id = solver.id := by
    exact fun _ => rfl
  work : ∀ solver : Solver α,
      (change solver).deferred.Sublist solver.deferred ∧
        ((change solver).resolvePending = true →
          solver.resolvePending = true) := by
    exact fun _ => ⟨List.Sublist.refl _, fun pending => pending⟩

namespace World

variable [Scalar α]

/-- The changes that activities come down to: among the changes of a world,
those that leave the number of every solver alone. -/
inductive Alters : World α → World α → Prop
  | relabelled (like : before.Like after) : Alters before after
  | recorded {event : Event α} (unnoted : ∀ id, event.noteOf id = none) :
      Alters world (world.record event)
  | founded (settings : Settings α) : Alters world (world.addSolver settings)
  | defined (tag : String) (body : Script α) :
      Alters world (world.addHook tag body)
  | marked {id} {change : Solver α → Solver α} (marks : Solver.Marks change) :
      Alters world (world.change id change)
  | worked {id} {task : Task α} (found : world.solvers[id]? = some solver)
      (yields : task.edit.Yields ⟨solver, []⟩ result draft) :
      Alters world (world.adopt id draft)
  | resumed {id} (found : world.solvers[id]? = some solver)
      (next : solver.nextDeferred = some work)
      (yields : work.Yields ⟨solver, []⟩ result draft) :
      Alters world (world.adopt id draft)

end World

/-- Whatever the activity, it goes on one change at a time. -/
theorem Activity.RunsWith.along [Scalar α] {known : Activity.Calls α}
    {activity : Activity α} {before after : World α} {result : Ending α}
    (runs : activity.RunsWith known before result after) :
    activity.Along World.Alters known before result after := by
  have record : ∀ {world : World α} {event : Event α},
      (∀ id, event.noteOf id = none) →
      Relation.ReflTransGen World.Alters world (world.record event) :=
    fun unnoted => .single (.recorded unnoted)
  have mark : ∀ {world : World α} {id : SolverId}
      {change : Solver α → Solver α}, Solver.Marks change →
      Relation.ReflTransGen World.Alters world (world.change id change) :=
    fun marks => .single (.marked marks)
  induction runs with
  | relabelled ready _ done induction =>
      exact induction.part (.single (.relabelled ready))
        (.single (.relabelled done)) fun _ runs => .relabelled ready runs done
  | atOnce isOver => exact .leaf .refl fun _ => .atOnce isOver
  -- Nothing is part of these.
  | founded founds =>
      exact .leaf (.single (.founded _)) fun _ => .founded founds
  | changed makes => exact .leaf (mark {}) fun _ => .changed makes
  | defined => exact .leaf (.single (.defined _ _)) fun _ => .defined
  | taskFailed found yields =>
      exact .leaf (.single (.worked found yields)) fun _ =>
        .taskFailed found yields
  | drainFailed found next within yields =>
      exact .leaf (.single (.resumed found next yields)) fun _ =>
        .drainFailed found next within yields
  -- One activity is part of these.
  | asked asks _ induction =>
      exact induction.part .refl .refl fun _ runs => .asked asks runs
  | observed _ induction =>
      exact induction.part (.single (.defined _ _)) .refl fun _ runs =>
        .observed runs
  | batched found _ noSolve induction =>
      exact induction.part (mark {}) (mark {}) fun _ runs =>
        .batched found runs noSolve
  | stopped _ failed induction =>
      exact induction.part .refl (record fun _ => rfl) fun _ runs =>
        .stopped runs failed
  | taskDone found yields _ induction =>
      exact induction.part (.single (.worked found yields)) .refl fun _ runs =>
        .taskDone found yields runs
  | unannounced some _ induction =>
      exact induction.part .refl .refl fun _ runs => .unannounced some runs
  | roundHeld some _ calls =>
      exact calls.part ((record fun _ => rfl).trans (mark {}))
        ((mark {}).trans (record fun _ => rfl)) fun _ runs =>
          .roundHeld some runs
  | roundBroken some _ calls =>
      refine calls.part ((record fun _ => rfl).trans (mark {}))
        (.trans ?_ (record fun _ => rfl)) fun _ runs => .roundBroken some runs
      exact mark { work := fun _ => ⟨List.nil_sublist _, nofun⟩ }
  | callSkipped found nobody _ induction =>
      exact induction.part .refl .refl fun _ runs =>
        .callSkipped found nobody runs
  | callFailed found listens _ holds call =>
      exact (call.call (.recorded fun _ => rfl) holds).part .refl .refl
        fun _ runs => .callFailed found listens runs.1 runs.2
  | settled found idle _ drains =>
      exact drains.part (mark {}) (mark {}) fun _ runs =>
        .settled found idle runs
  | unsettled found idle _ drains =>
      refine drains.part (mark {}) ?_ fun _ runs => .unsettled found idle runs
      exact mark { work := fun _ => ⟨List.nil_sublist _, nofun⟩ }
  | drainBroken found next within yields _ round =>
      exact round.part (.single (.resumed found next yields)) .refl
        fun _ runs => .drainBroken found next within yields runs
  -- Two activities are.
  | batchSolved found _ auto _ ran solved =>
      exact ran.parts solved (mark {}) (mark {}) fun _ runs later =>
        .batchSolved found runs auto later
  | continued _ goesOn _ first later =>
      exact first.parts later .refl (record fun _ => rfl) fun _ runs later =>
        .continued runs goesOn later
  | announced some _ _ round settled =>
      exact round.parts settled .refl .refl fun _ runs later =>
        .announced some runs later
  | called found listens _ holds _ call later =>
      exact (call.call (.recorded fun _ => rfl) holds).parts later .refl
        (record fun _ => rfl) fun _ runs later =>
          .called found listens runs.1 runs.2 later
  | drainContinued found next within yields _ _ round later =>
      exact round.parts later (.single (.resumed found next yields)) .refl
        fun _ runs later => .drainContinued found next within yields runs later

theorem Activity.RunsWith.alters [Scalar α] {known : Activity.Calls α}
    {activity : Activity α} {before after : World α} {result : Ending α}
    (runs : activity.RunsWith known before result after) :
    Relation.ReflTransGen World.Alters before after :=
  Calls.Along.steps runs.along

/-- What every change keeps is kept, whatever the activity. -/
theorem Activity.RunsWith.carries [Scalar α] {known : Activity.Calls α}
    {activity : Activity α} {before after : World α} {result : Ending α}
    {property : World α → Prop}
    (runs : activity.RunsWith known before result after)
    (kept : ∀ world next, World.Alters world next →
      property world → property next) :
    property before → property after := by
  intro holds
  have alters := runs.alters
  clear runs
  induction alters with
  | refl => exact holds
  | tail _ step induction => exact kept _ _ step induction

end LiveLinear
