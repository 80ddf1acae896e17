import LiveLinear.Proofs.Session.Trace

namespace LiveLinear

/-! # Sessions written out

The worlds that a session passes through can be told by the changes that lead
through them. -/

variable {α : Type}

namespace World

def relabel (change : Labels α → Labels α) (world : World α) : World α :=
  { world with labels := change world.labels }

/-- The worlds that changes lead through. -/
def passing (world : World α) : List (World α → World α) → List (World α)
  | [] => []
  | change :: rest => change world :: (change world).passing rest

variable [Scalar α]

def attempt (id : SolverId) (task : Task α) (world : World α) : World α :=
  match world.solvers[id]? with
  | none => world
  | some solver => world.adopt id (task.edit.run ⟨solver, []⟩).2

theorem advances_relabel (change : Labels α → Labels α) (world : World α) :
    world.Advances (world.relabel change) :=
  .relabelled (.relabel world (change world.labels))

theorem advances_attempt (id : SolverId) (task : Task α) (world : World α) :
    world.Advances (world.attempt id task) := by
  unfold attempt
  split
  · exact .relabelled (.refl world)
  · next solver found =>
      exact .worked found (Edit.yields_run task.edit ⟨solver, []⟩)

theorem isChain_passing {changes : List (World α → World α)}
    (advances : ∀ change ∈ changes, ∀ world : World α,
      world.Advances (change world))
    (world : World α) : (world :: world.passing changes).IsChain Advances := by
  induction changes generalizing world with
  | nil => exact .singleton world
  | cons change rest induction =>
      have later := induction fun other member =>
        advances other (List.mem_cons_of_mem _ member)
      exact .cons_cons (advances change List.mem_cons_self world)
        (later (change world))

end World

theorem Session.traces_passing [Scalar α] {engine : Engine α}
    {commands : List (Command α)} {changes : List (World α → World α)}
    (advances : ∀ change ∈ changes, ∀ world : World α,
      world.Advances (change world))
    (steps : ((play engine .empty commands).map Step.world).Sublist
      (World.empty.passing changes)) :
    Traces engine commands (World.empty.passing changes) := by
  have chain := World.isChain_passing advances .empty
  refine ⟨chain, steps, fun world member event older visible happened => ?_⟩
  exact exists_moment (fun _ _ advances => advances.history visible) chain
    member happened

end LiveLinear
