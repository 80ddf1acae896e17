import LiveLinear.Proofs.Session.Quiescence
import LiveLinear.Proofs.Solver.Upkeep

namespace LiveLinear

/-! # Reached worlds

The worlds between two commands of a session, and what holds of all of them. -/

variable {α : Type}

namespace World

def Coherent (world : World α) : Prop :=
  world.Each fun _ solver => solver.Coherent

variable {world : World α} {id : SolverId}

theorem Coherent.change {change : Solver α → Solver α}
    (coherent : world.Coherent)
    (changed : ∀ solver : Solver α, solver.Coherent →
      (change solver).Coherent) :
    (world.change id change).Coherent :=
  Each.change coherent (fun _ _ _ holds => holds) fun solver _ holds =>
    changed solver holds

theorem Coherent.adopt {solver : Solver α} {draft : Draft α}
    (coherent : world.Coherent) (found : world.solvers[id]? = some solver)
    (drafted : solver.Coherent → draft.solver.Coherent) :
    (world.adopt id draft).Coherent :=
  Each.adopt coherent found (fun _ _ _ holds => holds) drafted

theorem Alters.coherent [Scalar α] {before after : World α}
    (alters : before.Alters after) (coherent : before.Coherent) :
    after.Coherent := by
  cases alters with
  | relabelled like => exact Each.of_like coherent like
  | recorded | defined => exact coherent
  | founded settings =>
      exact Each.addSolver coherent fun id =>
        Solver.coherent_empty id settings
  | marked marks =>
      exact coherent.change fun solver holds =>
        holds.of_sameContents (marks.contents solver)
  | worked found yields =>
      exact coherent.adopt found (Task.edit_coheres _ _ _ _ yields)
  | resumed found next yields =>
      exact coherent.adopt found fun holds =>
        Solver.coherent_of_nextDeferred holds next yields

end World

theorem Activity.RunsWith.coheres [Scalar α] {known : Activity.Calls _}
    {activity : Activity α} {before after : World α} {result : Ending α}
    (runs : activity.RunsWith known before result after) :
    before.Coherent → after.Coherent := by
  have kept : ∀ world next : World α, world.Alters next →
      world.Coherent → next.Coherent :=
    fun _ _ alters => alters.coherent
  exact runs.carries kept

namespace Session

variable [Scalar α] {engine : Engine α}

/-- The worlds that commands lead to from the empty one, whether or not they
fail. -/
inductive Reached (engine : Engine α) : World α → Prop
  | empty : Reached engine .empty
  | step (reached : Reached engine before)
      (stepped : Session.step engine before command = some done) :
      Reached engine done.world

namespace Reached

variable {world : World α}

theorem of_play {commands : List (Command α)} (reached : Reached engine world) :
    ∀ done ∈ play engine world commands, Reached engine done.world :=
  play_keeps commands (fun _ _ _ _ reached stepped => reached.step stepped)
    world reached

theorem of_last (engine : Engine α) (commands : List (Command α)) :
    Reached engine
      (((play engine .empty commands).getLast?.map Step.world).getD
        .empty) := by
  cases last : (play engine .empty commands).getLast? with
  | none => exact .empty
  | some done => exact of_play .empty done (List.mem_of_getLast? last)

theorem quiet (sound : engine.Sound) (reached : Reached engine world) :
    world.Quiet := by
  induction reached with
  | empty => exact World.quiet_empty
  | step _ stepped induction => exact step_quiet sound induction stepped

theorem coherent (sound : engine.Sound) (reached : Reached engine world) :
    world.Coherent := by
  induction reached with
  | empty => exact fun _ _ found => nomatch found
  | step _ stepped induction =>
      exact (step_runs sound stepped).1.coheres induction

end Reached

end Session

end LiveLinear
