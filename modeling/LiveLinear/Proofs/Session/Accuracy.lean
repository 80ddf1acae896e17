import LiveLinear.Proofs.Session.Unheard
import LiveLinear.Proofs.Solver.Accuracy

namespace LiveLinear

/-! # Accuracy of solving in a session

By how much constraints may be missed after a solve that has been asked for
between other commands, and how that can be more than the tolerance. -/

namespace Solver

variable {α : Type} {solver : Solver α}

theorem Unheard.storePoint (unheard : solver.Unheard)
    (target : Vector α solver.unknowns.size) :
    (solver.storePoint target).Unheard := by
  intro contents member
  rcases Table.mem_values_iff.mp member with ⟨id, isEntry⟩
  rcases (List.mem_ofFn' _ _).mp isEntry with ⟨column, equal⟩
  cases equal
  have former : (solver.columnId column, (solver.unknowns.entry column).2) ∈
      solver.unknowns.entries := List.getElem_mem column.isLt
  exact unheard (solver.unknowns.entry column).2
    (Table.mem_values_iff.mpr ⟨_, former⟩)

theorem Writes.unheard [Scalar α]
    {result : Except (Failure α) (List VariableId)} {after : Solver α}
    (writes : solver.Writes result after) (unheard : solver.Unheard) :
    after.Unheard := by
  cases writes with
  | deferred _ | unassembled _ _ | refused _ _ _ _ => exact unheard
  | written _ _ _ => exact unheard.storePoint _

end Solver

namespace Session

variable {α : Type} [Scalar α] {engine : Engine α} {world : World α}
  {name : String} {id : SolverId} {solver : Solver α} {done : Step α}

section Carried

variable {context : Option α} {after : World α}

theorem yields_perform_writeSolution (found : world.solvers[id]? = some solver)
    {moved : List VariableId} {draft : Draft α}
    (written : Edit.writeSolution.Yields ⟨solver, []⟩ (.ok moved) draft)
    (unheard : solver.Unheard) (quiet : solver.Quiet)
    (patient : moved = [] ∨ 0 < engine.patience) :
    (Action.perform engine id Edit.writeSolution).Yields world (.ok ())
      ((world.adopt id draft).heard id moved) := by
  apply Action.perform_of_unheard found written
  · exact (Edit.writeSolution_cases written).1.unheard unheard
  · exact quiet.of_steady (Edit.writeSolution_steady _ _ _ written)
  · exact patient

theorem yields_solve (named : world.labels.solvers.get? name = some id)
    (found : world.solvers[id]? = some solver) {moved : List VariableId}
    {draft : Draft α}
    (written : Edit.writeSolution.Yields ⟨solver, []⟩ (.ok moved) draft)
    (unheard : solver.Unheard) (quiet : solver.Quiet)
    (patient : moved = [] ∨ 0 < engine.patience) :
    (Action.execute engine context (.operation (.solve name))).Yields world
      (.ok .nothing) ((world.adopt id draft).heard id moved) := by
  have performed :=
    yields_perform_writeSolution found written unheard quiet patient
  simp only [Action.execute, Action.operate, Action.solverNamed]
  rw [Action.yields_lookUp_bind named, Action.yields_bind_of_ok performed]
  exact Action.yields_pure.mpr ⟨rfl, rfl⟩

/-- What a solve has done that nobody hears of, if it has not failed. -/
theorem writeSolution_of_yields
    (named : world.labels.solvers.get? name = some id)
    (found : world.solvers[id]? = some solver) (unheard : solver.Unheard)
    (quiet : solver.Quiet) {reply : Reply α}
    (yields :
      (Action.execute engine context (.operation (.solve name))).Yields world
        (.ok reply) after) :
    ∃ moved draft, Edit.writeSolution.Yields ⟨solver, []⟩ (.ok moved) draft ∧
      after = (world.adopt id draft).heard id moved := by
  have unheardAfter : ∀ moved draft,
      Edit.writeSolution.Yields ⟨solver, []⟩ (.ok moved) draft →
      draft.solver.Unheard ∧ draft.solver.Quiet := fun _ _ written =>
    ⟨(Edit.writeSolution_cases written).1.unheard unheard,
      quiet.of_steady (Edit.writeSolution_steady _ _ _ written)⟩
  simp only [Action.execute, Action.operate, Action.solverNamed] at yields
  rw [Action.yields_lookUp_bind named] at yields
  rcases Action.yields_bind.mp yields with
    ⟨_, _, impossible⟩ | ⟨_, middle, performed, rest⟩
  · cases impossible
  · rcases Action.perform_cases_of_unheard found unheardAfter performed with
      ⟨_, _, _, impossible, _⟩ | ⟨moved, draft, written, _, rfl⟩
    · cases impossible
    · exact ⟨moved, draft, written, (Action.yields_pure.mp rest).2⟩

end Carried

/-- What a solve does that nobody hears of, if it does not fail. -/
theorem writes_of_solve (named : world.labels.solvers.get? name = some id)
    (found : world.solvers[id]? = some solver) (unheard : solver.Unheard)
    (quiet : solver.Quiet)
    (stepped : step engine world (.operation (.solve name)) = some done)
    (returned : done.outcome.isOk = true) :
    ∃ moved after, solver.Writes (.ok moved) after ∧
      done.world.solvers[id]? = some after := by
  have yields := yields_of_step stepped
  cases outcome : done.outcome with
  | error failure =>
      rw [outcome] at returned
      cases returned
  | ok reply =>
      rw [outcome] at yields
      rcases writeSolution_of_yields named found unheard quiet yields with
        ⟨moved, draft, written, isAfter⟩
      refine ⟨moved, draft.solver, (Edit.writeSolution_cases written).1, ?_⟩
      rw [isAfter, World.solvers_heard]
      exact World.getElem?_adopt_self draft found

theorem step_freeVariables (named : world.labels.solvers.get? name = some id)
    (found : world.solvers[id]? = some solver)
    {tableau : Tableau α solver.unknowns.size}
    (assembled : solver.assemble = .ok tableau) :
    ∃ asked, step engine world (.operation (.askSolver name .freeVariables)) =
      some asked ∧
      asked.outcome = .ok (.variableIds (solver.freeIds tableau.reduce)) := by
  rcases Edit.yields_freeVariables ⟨solver, []⟩ assembled with ⟨draft, answered⟩
  have edited := Action.edit_of_yields found answered
  have yields :
      (Action.execute engine none
        (.operation (.askSolver name .freeVariables))).Yields world
        (.ok (.variableIds (solver.freeIds tableau.reduce)))
        (world.adopt id draft) := by
    simp only [Action.execute, Action.operate, Action.solverNamed]
    rw [Action.yields_lookUp_bind named]
    exact Action.yields_bind.mpr
      (.inr ⟨_, _, edited, Action.yields_pure.mpr ⟨rfl, rfl⟩⟩)
  rcases step_of_yields yields with ⟨events, stepped⟩
  exact ⟨_, stepped, rfl⟩

/-- A solve that does not fail, asked for between two commands: of a solver with
a tolerance between zero and one that refuses contradictions and has no
hooks. -/
structure Solves (engine : Engine ℚ) (world : World ℚ) (name : String)
    (id : SolverId) (before : Solver ℚ) (tolerance : ℚ) (done : Step ℚ) :
    Prop where
  reached : Reached engine world
  named : world.labels.solvers.get? name = some id
  found : world.solvers[id]? = some before
  unheard : before.Unheard
  refuses : before.settings.refusesContradiction = true
  isTolerance : before.settings.tolerance = some tolerance
  positive : 0 < tolerance
  small : tolerance < 1
  stepped : step engine world (.operation (.solve name)) = some done
  returned : done.outcome.isOk = true

/-- After a solve that does not fail, a constraint is missed by at most the
tolerance, and the tolerance times the size of every variable that is left
free. -/
theorem Solves.abs_residual_le {patience depth : Nat} {world : World ℚ}
    {name : String} {id : SolverId} {before : Solver ℚ} {tolerance : ℚ}
    {done : Step ℚ}
    (solves : Solves (.ofDepth patience depth) world name id before tolerance
      done) :
    ∃ asked free after,
      step (.ofDepth patience depth) world
          (.operation (.askSolver name .freeVariables)) = some asked ∧
        asked.outcome = .ok (.variableIds free) ∧
        done.world.solvers[id]? = some after ∧
        after.constraints = before.constraints ∧
        (∀ id ∈ free, after.valueOf id = before.valueOf id) ∧
        ∀ constraint ∈ after.constraints.values,
          |after.residual constraint| ≤
              tolerance * (1 + (free.map fun id => |after.valueOf id|).sum) ∧
            ((∀ id ∈ free, after.valueOf id = 0) →
              after.isSatisfied constraint = .ok true) := by
  have sound : (Engine.ofDepth patience depth : Engine ℚ).Sound :=
    Engine.ofDepth_sound patience depth
  have quiet := solves.reached.quiet sound id before solves.found
  have coherent := solves.reached.coherent sound id before solves.found
  rcases writes_of_solve solves.named solves.found solves.unheard quiet
    solves.stepped solves.returned with ⟨moved, after, writes, left⟩
  rcases writes.accurate quiet.dispatching coherent solves.refuses
    solves.isTolerance solves.small with
    ⟨tableau, assembled, constraints, keeps, bounded⟩
  rcases step_freeVariables solves.named solves.found assembled with
    ⟨asked, asks, answered⟩
  have isTolerance : after.settings.tolerance = some tolerance := by
    rw [writes.marks.2.1]
    exact solves.isTolerance
  refine ⟨asked, _, after, asks, answered, left, constraints, keeps, ?_⟩
  intro constraint member
  have bound := bounded constraint member
  refine ⟨bound, fun zero => ?_⟩
  have sizes :
      ((before.freeIds tableau.reduce).map fun id => |after.valueOf id|) =
        (before.freeIds tableau.reduce).map fun _ => 0 := by
    apply List.map_congr_left
    intro id free
    rw [zero id free, abs_zero]
  have within : |after.residual constraint| ≤ tolerance := by
    simpa [sizes] using bound
  rw [Solver.isSatisfied_eq constraint isTolerance,
    Scalar.negligible_iff.mpr within]

/-- A world with one constraint at tolerance an eighth, whose only coefficient
is smaller than that and whose variable is large. -/
def slackWorld : World ℚ :=
  ((play (.ofDepth 9 3) .empty
    [.operation (.newSolver "s" true true (.literal (some (1 / 8))) 10),
      .operation (.addVariable "s" "x" none (.literal (some 128))),
      .operation (.addConstraint "s" (some "c")
        [(.label "x", .literal (some (1 / 16)))] (.literal (some 0)))
    ]).getLast?.map Step.world).getD .empty

theorem reached_slackWorld : Reached (.ofDepth 9 3) slackWorld :=
  Reached.of_last _ _

theorem solves_slackWorld :
    ∃ before done,
      Solves (.ofDepth 9 3) slackWorld "s" 0 before (1 / 8) done := by
  have isThere : slackWorld.solvers[0]?.isSome = true := by decide +kernel
  have steps :
      (step (.ofDepth 9 3) slackWorld (.operation (.solve "s"))).isSome =
        true := by
    decide +kernel
  have suited : ∀ solver ∈ slackWorld.solvers[0]?,
      (∀ contents ∈ solver.unknowns.values, contents.hook = none) ∧
        solver.settings.refusesContradiction = true ∧
        solver.settings.tolerance = some (1 / 8) := by decide +kernel
  have returned :
      ∀ done ∈ step (.ofDepth 9 3) slackWorld (.operation (.solve "s")),
      done.outcome.isOk = true := by decide +kernel
  rcases Option.isSome_iff_exists.mp isThere with ⟨before, found⟩
  rcases Option.isSome_iff_exists.mp steps with ⟨done, stepped⟩
  rcases suited before found with ⟨unheard, refuses, isTolerance⟩
  refine ⟨before, done, ?_⟩
  exact
    { reached := reached_slackWorld
      named := by decide +kernel
      found, unheard, refuses, isTolerance
      positive := by norm_num
      small := by norm_num
      stepped
      returned := returned done stepped }

theorem abs_residual_le_slackWorld :
    ∃ before done, Solves (.ofDepth 9 3) slackWorld "s" 0 before (1 / 8) done ∧
      ∃ asked free after,
        step (.ofDepth 9 3) slackWorld
            (.operation (.askSolver "s" .freeVariables)) = some asked ∧
          asked.outcome = .ok (.variableIds free) ∧
          done.world.solvers[0]? = some after ∧
          after.constraints = before.constraints ∧
          (∀ id ∈ free, after.valueOf id = before.valueOf id) ∧
          ∀ constraint ∈ after.constraints.values,
            |after.residual constraint| ≤
                1 / 8 * (1 + (free.map fun id => |after.valueOf id|).sum) ∧
              ((∀ id ∈ free, after.valueOf id = 0) →
                after.isSatisfied constraint = .ok true) := by
  rcases solves_slackWorld with ⟨before, done, solves⟩
  exact ⟨before, done, solves, solves.abs_residual_le⟩

/-- The tolerance alone does not bound what is missed. -/
theorem exists_residual_beyond_tolerance :
    ∃ before done after,
      Solves (.ofDepth 9 3) slackWorld "s" 0 before (1 / 8) done ∧
      done.world.solvers[0]? = some after ∧
      ∃ constraint ∈ after.constraints.values,
        1 / 8 < |after.residual constraint| ∧
          after.isSatisfied constraint = .ok false := by
  have isThere :
      ∀ done ∈ step (.ofDepth 9 3) slackWorld (.operation (.solve "s")),
      done.world.solvers[0]?.isSome = true := by decide +kernel
  have missed :
      ∀ done ∈ step (.ofDepth 9 3) slackWorld (.operation (.solve "s")),
        ∀ after ∈ done.world.solvers[0]?,
        after.settings.tolerance = some (1 / 8) ∧
        ∃ constraint ∈ after.constraints.values,
        1 / 8 < |after.residual constraint| := by
    decide +kernel
  rcases solves_slackWorld with ⟨before, done, solves⟩
  rcases Option.isSome_iff_exists.mp (isThere done solves.stepped) with
    ⟨after, left⟩
  rcases missed done solves.stepped after left with
    ⟨isTolerance, constraint, member, beyond⟩
  refine ⟨before, done, after, solves, left, constraint, member, beyond, ?_⟩
  rw [Solver.isSatisfied_eq constraint isTolerance,
    Scalar.not_negligible_iff.mpr beyond]

end Session

end LiveLinear
