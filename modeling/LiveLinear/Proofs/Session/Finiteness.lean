import LiveLinear.Proofs.Session.Passing
import LiveLinear.Proofs.Session.Sifting

namespace LiveLinear

/-! # Finite numbers, moment by moment

The constraints of a session have finite numbers until a solver stores a number
of its own that is not finite. Up to then nothing fails over a number. -/

variable {α : Type} [Scalar α]

namespace World

/-- A solver stores a number that it has computed, and that is not finite. -/
inductive Spoils : World α → World α → Prop
  | worked {id} {task : Task α} (found : world.solvers[id]? = some solver)
      (yields : task.edit.Yields ⟨solver, []⟩ result draft)
      (spoils : task.Spoils solver result) :
      Spoils world (world.adopt id draft)
  | resumed {id} (found : world.solvers[id]? = some solver)
      (next : solver.nextDeferred = some work)
      (yields : work.Yields ⟨solver, []⟩ result draft)
      (spoils : solver.SpoilsDeferred result) :
      Spoils world (world.adopt id draft)

/-- What a solver does fails because a number is not finite. -/
inductive Chokes : World α → World α → Prop
  | worked {id} {task : Task α} (found : world.solvers[id]? = some solver)
      (yields : task.edit.Yields ⟨solver, []⟩ (.error .entriesNotFinite)
        draft) :
      Chokes world (world.adopt id draft)
  | resumed {id} (found : world.solvers[id]? = some solver)
      (next : solver.nextDeferred = some work)
      (yields : work.Yields ⟨solver, []⟩ (.error .entriesNotFinite) draft) :
      Chokes world (world.adopt id draft)

variable {before after world : World α}

theorem storesFinite_iff :
    world.StoresFinite ↔ ∀ solver ∈ world.solvers, solver.StoresFinite := by
  constructor
  · intro stores solver member
    rcases List.mem_iff_getElem?.mp member with ⟨id, found⟩
    exact stores id solver found
  · exact fun stores _ solver found =>
      stores solver (List.mem_of_getElem? found)

instance (world : World α) : Decidable world.StoresFinite :=
  decidable_of_iff _ storesFinite_iff.symm

theorem storesFinite_empty : (World.empty : World α).StoresFinite :=
  fun _ _ found => nomatch found

theorem Spoils.stores_stray (spoils : before.Spoils after) :
    ¬after.StoresFinite := by
  cases spoils with
  | worked found yields spoils =>
      exact not_storesFinite_adopt found (spoils.stores_stray yields)
  | resumed found next yields spoils =>
      exact not_storesFinite_adopt found (spoils.stores_stray next yields)

section Advancing

variable [FiniteUnits α]

theorem Advances.storesFinite (advances : before.Advances after)
    (sifted : before.Sifted) (stores : before.StoresFinite)
    (fine : ¬before.Spoils after) : after.StoresFinite := by
  have others : ∀ (id other : SolverId) (solver : Solver α), id ≠ other →
      solver.StoresFinite → solver.StoresFinite := fun _ _ _ _ holds => holds
  cases advances with
  | relabelled like => exact Each.of_like stores like
  | recorded | defined => exact stores
  | founded => exact Each.addSolver stores fun _ _ member => nomatch member
  | marked same =>
      exact Each.change stores (others _) fun solver _ holds =>
        holds.of_constraints (same solver).constraints
  | worked found yields =>
      refine Each.adopt stores found (others _) ?_
      exact Task.edit_staysFinite (sifted.coherent _ _ found) yields
        fun spoils => fine (.worked found yields spoils)
  | resumed found next yields =>
      refine Each.adopt stores found (others _) fun holds => ?_
      exact Solver.storesFinite_of_nextDeferred holds (sifted.queues _ _ found)
        next yields fun spoils => fine (.resumed found next yields spoils)

theorem Chokes.stores_stray (chokes : before.Chokes after)
    (sifted : before.Sifted) :
    ¬after.StoresFinite := by
  cases chokes with
  | worked found yields =>
      exact not_storesFinite_adopt found
        (Task.edit_blames (sifted.coherent _ _ found) yields)
  | resumed found next yields =>
      exact not_storesFinite_adopt found (Solver.blames_of_nextDeferred
        (sifted.coherent _ _ found) (sifted.queues _ _ found) next yields)

end Advancing

/-! ## Sifted worlds on the way -/

structure Changes (before after : World α) : Prop where
  advances : before.Advances after
  sifted : before.Sifted → after.Sifted

theorem Alters.changes (alters : before.Alters after) :
    before.Changes after := by
  refine ⟨alters.advances, fun sifted => ?_⟩
  cases alters with
  | relabelled like => exact sifted.of_like like
  | recorded | defined => exact ⟨sifted.coherent, sifted.queues⟩
  | founded settings => exact sifted.addSolver settings
  | marked marks => exact sifted.mark marks.contents fun solver =>
        (marks.work solver).1.subset
  | worked found yields =>
      exact sifted.adopt found (Task.edit_coheres _ _ _ _ yields)
        (Task.edit_queuesOn _ _ _ _ yields)
  | resumed found next yields =>
      exact sifted.adopt found
        (fun coherent => Solver.coherent_of_nextDeferred coherent next yields)
        fun queues => Solver.queuesFinite_of_nextDeferred queues next yields

end World

/-! ## Sessions -/

namespace Session

variable {engine : Engine α} {commands : List (Command α)}
  {trace : List (World α)}

theorem exists_sifted_traces (sound : engine.Sound)
    (commands : List (Command α)) :
    ∃ trace, Traces engine commands trace ∧ ∀ world ∈ trace, world.Sifted := by
  rcases exists_altering_traces sound commands with ⟨trace, traces, _, alters⟩
  refine ⟨trace, traces,
    alters.cons_induction World.Sifted _ ?_ World.sifted_empty⟩
  exact fun _ _ step sifted => step.changes.sifted sifted

variable [FiniteUnits α]

namespace Traces

/-- The worlds of a session have finite numbers if nothing spoils them, and only
then. -/
theorem storesFinite_iff (traces : Traces engine commands trace)
    (sifted : ∀ world ∈ trace, world.Sifted) :
    (∀ world ∈ trace, world.StoresFinite) ↔
      (World.empty :: trace).IsChain fun before after =>
        ¬before.Spoils after := by
  have siftedFirst : ∀ world ∈ World.empty :: trace, world.Sifted := by
    intro world member
    rcases List.mem_cons.mp member with rfl | later
    · exact World.sifted_empty
    · exact sifted world later
  constructor
  · intro stores
    refine traces.advances.imp_of_mem_tail_imp
      fun before after _ isAfter _ spoils => ?_
    exact spoils.stores_stray (stores after isAfter)
  · intro fine
    have sound : (World.empty :: trace).IsChain fun before after =>
        before.StoresFinite → after.StoresFinite := by
      rw [List.isChain_iff_getElem] at fine ⊢
      intro index inRange stores
      have step := List.isChain_iff_getElem.mp traces.advances index inRange
      exact step.storesFinite (siftedFirst _ (List.getElem_mem _)) stores
        (fine index inRange)
    exact sound.cons_induction World.StoresFinite _ (fun _ _ step => step)
      World.storesFinite_empty

theorem isChain_not_chokes (traces : Traces engine commands trace)
    (sifted : ∀ world ∈ trace, world.Sifted)
    (stores : ∀ world ∈ trace, world.StoresFinite) :
    (World.empty :: trace).IsChain fun before after =>
      ¬before.Chokes after := by
  refine traces.advances.imp_of_mem_tail_imp
    fun before after isBefore isAfter _ chokes => ?_
  refine chokes.stores_stray ?_ (stores after isAfter)
  rcases List.mem_cons.mp isBefore with rfl | later
  · exact World.sifted_empty
  · exact sifted before later

end Traces

theorem outcome_ne_entriesNotFinite (blaming : engine.Blames)
    (stores : ∀ done ∈ play engine .empty commands, done.world.StoresFinite) :
    ∀ done ∈ play engine .empty commands,
      done.outcome ≠ .error .entriesNotFinite := by
  have carried : ∀ before command done, command ∈ commands → before.Sifted →
      step engine before command = some done → True → done.world.Sifted :=
    fun before command done _ sifted stepped _ =>
      (Action.execute_blames blaming none command _ _ _ (yields_of_step stepped)
        sifted).1
  intro done member failed
  rcases play_each commands carried .empty World.sifted_empty
    (fun _ _ => trivial) done member with ⟨before, command, _, sifted, stepped⟩
  have blames :=
    Action.execute_blames blaming none command _ _ _
      (yields_of_step stepped) sifted
  exact blames.2 failed (stores done member)

/-- What a session does. The numbers in its constraints are finite at every
moment if and only if no solver stores a number of its own that is not: the sum
of two coefficients, the value of a variable that it locks, or the value of a
locked variable that it takes back. As long as they are finite, no command fails
because a number is not, and neither does anything in a hook, in a batch or in
what has been put off. -/
theorem finite_until_spoilt (patience depth : Nat)
    (commands : List (Command α)) :
    (∃ trace, Traces (.ofDepth patience depth) commands trace ∧
        ∀ world ∈ trace, world.Sifted) ∧
      ∀ trace, Traces (.ofDepth patience depth) commands trace →
        (∀ world ∈ trace, world.Sifted) →
        ((∀ world ∈ trace, world.StoresFinite) ↔
            (World.empty :: trace).IsChain fun before after =>
              ¬before.Spoils after) ∧
          ((∀ world ∈ trace, world.StoresFinite) →
            (∀ done ∈ play (.ofDepth patience depth) .empty commands,
              done.outcome ≠ .error .entriesNotFinite) ∧
            (World.empty :: trace).IsChain fun before after =>
              ¬before.Chokes after) := by
  refine ⟨exists_sifted_traces (Engine.ofDepth_sound patience depth)
    commands, ?_⟩
  intro trace traces sifted
  refine ⟨traces.storesFinite_iff sifted, fun stores => ⟨?_, ?_⟩⟩
  · refine outcome_ne_entriesNotFinite (Engine.ofDepth_blames patience depth) ?_
    exact fun done member =>
      stores done.world (traces.steps.subset (List.mem_map_of_mem member))
  · exact traces.isChain_not_chokes sifted stores

/-- A coefficient and as much again, which is finite. -/
def doublingCommands : List (Command Float) :=
  [.operation (.newSolver "s" true true (.literal (some 0)) 10),
    .operation (.addVariable "s" "x" none (.literal (some 0))),
    .operation (.addConstraint "s" (some "c") [(.label "x", .literal (some 1))]
      (.literal (some 0))),
    .operation (.addTerm "c" (.label "x") (.literal (some 1)))]

def doublingChanges : List (World Float → World Float) :=
  [fun world => world.addSolver ⟨true, true, some 0, 10⟩,
    World.relabel fun labels =>
      { labels with solvers := labels.solvers.put "s" 0 },
    World.attempt 0 (.addVariable none (some 0)),
    World.relabel fun labels =>
      { labels with unknowns := labels.unknowns.put "x" ⟨0, 0⟩ },
    World.attempt 0 (.addConstraint [(.handle ⟨0, 0⟩, some 1)] (some 0)),
    World.relabel fun labels =>
      { labels with constraints := labels.constraints.put "c" ⟨0, 0⟩ },
    World.attempt 0 (.addTerm ⟨0, 0⟩ (.handle ⟨0, 0⟩) (some 1))]

theorem traces_doubling :
    Traces (.ofDepth 9 3) doublingCommands
      (World.empty.passing doublingChanges) := by
  apply traces_passing
  · simp only [doublingChanges, List.forall_mem_cons]
    refine ⟨fun _ => .founded _, ?_⟩
    refine ⟨World.advances_relabel _, World.advances_attempt _ _,
      World.advances_relabel _, ?_⟩
    refine ⟨World.advances_attempt _ _, World.advances_relabel _, ?_⟩
    exact ⟨World.advances_attempt _ _, by simp⟩
  · repeat first
      | exact List.Sublist.refl _
      | apply List.Sublist.cons_cons
      | apply List.Sublist.cons

def Step.chokes {α : Type} (done : Step α) : Bool :=
  match done.outcome with
  | .error .entriesNotFinite => true
  | _ => false

theorem Step.outcome_of_chokes {α : Type} {done : Step α}
    (holds : done.chokes = true) :
    done.outcome = .error .entriesNotFinite := by
  unfold chokes at holds
  split at holds
  · next same => exact same
  · cases holds

/-- A coefficient and as much again, which is not finite. -/
def overflowingCommands : List (Command Float) :=
  [.operation (.newSolver "s" true true (.literal (some 0)) 10),
    .operation (.addVariable "s" "x" none (.literal (some 0))),
    .operation (.addConstraint "s" (some "c")
      [(.label "x", .literal (some 1e308))] (.literal (some 0))),
    .operation (.addTerm "c" (.label "x") (.literal (some 1e308)))]

theorem finite_until_spoilt_overflowing :
    ((∀ world ∈ World.empty.passing doublingChanges, world.StoresFinite) ∧
      ((World.empty :: World.empty.passing doublingChanges).IsChain
        fun before after => ¬before.Spoils after) ∧
      ∀ done ∈ play (.ofDepth 9 3) .empty doublingCommands,
        done.outcome ≠ .error .entriesNotFinite) ∧
    (∃ done ∈ play (.ofDepth 9 3) .empty overflowingCommands,
      done.outcome = .error .entriesNotFinite) ∧
    ∃ trace, Traces (.ofDepth 9 3) overflowingCommands trace ∧
      ¬(World.empty :: trace).IsChain fun before after =>
        ¬before.Spoils after := by
  have stores : ∀ world ∈ World.empty.passing doublingChanges,
      world.StoresFinite := by
    decide +kernel
  have queues : ∀ world ∈ World.empty.passing doublingChanges,
      ∀ solver ∈ world.solvers, solver.QueuesFinite := by
    decide +kernel
  have sifted : ∀ world ∈ World.empty.passing doublingChanges, world.Sifted :=
      fun world member =>
    ⟨fun id solver found =>
      (traces_doubling.represented world member id solver found).coherent,
        fun id solver found =>
        queues world member solver (List.mem_of_getElem? found)⟩
  rcases (finite_until_spoilt 9 3 doublingCommands).2 _ traces_doubling
    sifted with
    ⟨finite, fails⟩
  have overflows : ∃ done ∈ play (.ofDepth 9 3) .empty overflowingCommands,
      done.chokes = true := by
    decide +kernel
  rcases overflows with ⟨done, isStep, chokes⟩
  have failed := Step.outcome_of_chokes chokes
  rcases finite_until_spoilt 9 3 overflowingCommands with
    ⟨⟨trace, traces, siftedTrace⟩, each⟩
  rcases each trace traces siftedTrace with ⟨unspoilt, fine⟩
  refine ⟨⟨stores, finite.mp stores, (fails stores).1⟩, ⟨done, isStep, failed⟩,
    trace, traces, ?_⟩
  exact fun chain => (fine (unspoilt.mpr chain)).1 done isStep failed

end Session

end LiveLinear
