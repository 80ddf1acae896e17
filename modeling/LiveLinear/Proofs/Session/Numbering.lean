import LiveLinear.Proofs.Session.Outermost

namespace LiveLinear

/-! # Numbers of solvers

A solver's own number is its place among the solvers of the world, so that the
handles that are made of its variables and constraints are its own. -/

variable {α : Type}

namespace World

def Numbered (world : World α) : Prop :=
  world.Each fun id solver => solver.id = id

variable {world : World α} {id : SolverId}

theorem Numbered.change {change : Solver α → Solver α}
    (numbered : world.Numbered)
    (same : ∀ solver, (change solver).id = solver.id) :
    (world.change id change).Numbered :=
  Each.change numbered (fun _ _ _ holds => holds) fun solver _ holds =>
    (same solver).trans holds

theorem Alters.numbered [Scalar α] {before after : World α}
    (alters : before.Alters after) (numbered : before.Numbered) :
    after.Numbered := by
  cases alters with
  | relabelled like => exact Each.of_like numbered like
  | recorded | defined => exact numbered
  | founded => exact Each.addSolver numbered fun _ => rfl
  | marked marks => exact numbered.change marks.id
  | worked found yields =>
      exact Each.adopt numbered found (fun _ _ _ holds => holds)
        (Task.edit_steady _ _ _ _ yields).id.trans
  | resumed found next yields =>
      exact Each.adopt numbered found (fun _ _ _ holds => holds)
        (Solver.takes_of_nextDeferred next yields).id.trans

end World

theorem Activity.RunsWith.numbers [Scalar α] {known : Activity.Calls _}
    {activity : Activity α} {before after : World α} {result : Ending α}
    (runs : activity.RunsWith known before result after) :
    before.Numbered → after.Numbered := by
  have kept : ∀ world next : World α, world.Alters next →
      world.Numbered → next.Numbered :=
    fun _ _ alters => alters.numbered
  exact runs.carries kept

theorem Session.exists_numbered_traces [Scalar α] {engine : Engine α}
    (sound : engine.Sound) (commands : List (Command α)) :
    ∃ trace, Traces engine commands trace ∧ ∀ world ∈ trace,
      world.Numbered := by
  rcases exists_altering_traces sound commands with ⟨trace, traces, _, alters⟩
  refine ⟨trace, traces,
    alters.cons_induction World.Numbered _ ?_ fun _ _ found => nomatch found⟩
  exact fun _ _ step numbered => step.numbered numbered

theorem Session.Outer.numbered [Scalar α] {engine : Engine α} {world : World α}
    (sound : engine.Sound) (outer : Outer engine world) : world.Numbered := by
  refine Onward.keeps sound outer World.Numbered ?_ ?_ ?_ fun _ _ found =>
    nomatch found
  · exact fun runs numbered => runs.numbers numbered
  · exact fun _ _ _ numbered => numbered.change fun _ => rfl
  · exact fun _ _ _ numbered => numbered

end LiveLinear
