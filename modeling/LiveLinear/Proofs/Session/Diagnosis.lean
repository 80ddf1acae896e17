import LiveLinear.Proofs.Session.Rearranging
import LiveLinear.Proofs.Session.Repetition

namespace LiveLinear

/-! # Diagnoses in a session

A solver that is outside of dispatch and has no hooks can be asked for its
diagnoses at any time: they foretell what a solve comes to, whatever the
arithmetic, and asking changes nothing. -/

variable {α : Type}

namespace Action

variable {β γ : Type} {before after : World α} {id : SolverId}

/-- An edit that only makes notes, and what is answered from its result. -/
theorem annotates_of_edit {edit : Edit α β}
    (noting : edit.Keeps Draft.SameSolver) {reply : β → γ}
    {result : Except (Failure α) γ}
    (yields : (Action.edit id edit >>= fun value => pure (reply value)).Yields
      before result after) : ∃ notes, after = before.annotate id notes := by
  have edited : ∃ outcome,
      (Action.edit id edit).Yields before outcome after := by
    rcases yields_bind.mp yields with ⟨_, failed, _⟩ | ⟨_, middle, done, rest⟩
    · exact ⟨_, failed⟩
    · rw [(yields_pure.mp rest).2]
      exact ⟨_, done⟩
  rcases edited with ⟨outcome, edited⟩
  rcases yields_edit.mp edited with
    ⟨_, _, rfl⟩ | ⟨solver, ⟨same, notes⟩, found, done, rfl⟩
  · exact ⟨[], rfl⟩
  · have isSame : same = solver := noting _ _ _ done
    rw [isSame]
    exact ⟨notes, World.adopt_self found notes⟩

/-- Whatever a solver is asked, and whether or not it can answer, notes are all
that is added. -/
theorem askSolver_annotates [Scalar α] {query : SolverQuery}
    {result : Except (Failure α) (Reply α)}
    (yields : (askSolver id query).Yields before result after) :
    ∃ notes, after = before.annotate id notes := by
  have unchanged : Reads (askSolver id query : Action α (Reply α)) →
      ∃ notes, after = before.annotate id notes :=
    fun reads => ⟨[], reads.same yields⟩
  cases query with
  | isOverConstrained =>
      exact annotates_of_edit Edit.isOverConstrained_noting yields
  | isUnderConstrained =>
      exact annotates_of_edit Edit.isUnderConstrained_noting yields
  | freeVariables => exact annotates_of_edit Edit.freeVariables_noting yields
  | residuals | describe | autoSolve | refusesContradiction | cascadeLimit =>
      exact unchanged (.bind (.solver id) fun _ => .pure _)
  | tolerance =>
      apply unchanged
      refine .bind (.solver id) fun solver => ?_
      split
      · exact .pure _
      · exact .throw _

end Action

namespace Session

variable [Scalar α] {world : World α} {id : SolverId} {solver : Solver α}

/-- A solve of a solver that is quiet and has no hooks comes to an end: as the
edit does, and with the solver that the edit leaves. -/
theorem exists_solve (engine : Engine α)
    (found : world.solvers[id]? = some solver) (unheard : solver.Unheard)
    (quiet : solver.Quiet) (patient : 0 < engine.patience) :
    ∃ result settled after, solver.Writes result settled ∧
      (Action.perform engine id Edit.writeSolution).Yields world (ending result)
        after ∧
      after.solvers[id]? = some settled := by
  rcases run : Edit.writeSolution.run ⟨solver, []⟩ with ⟨result, draft⟩
  have writes := (Edit.writeSolution_cases run).1
  have left := World.getElem?_adopt_self draft found
  cases result with
  | error failure =>
      exact ⟨_, _, _, writes, Action.perform_of_failing engine found run, left⟩
  | ok moved =>
      refine ⟨_, _, _, writes,
        yields_perform_writeSolution found run unheard quiet (.inr patient), ?_⟩
      rw [World.solvers_heard]
      exact left

/-- A solver outside of dispatch and without hooks, whose constraints are finite
numbers that are read at a tolerance from zero to below one. Coherent and
settled are all solvers at all times at which commands are issued
(`Activity.RunsWith.coheres`, `Activity.RunsWith.settles`). -/
structure Diagnosable (world : World α) (id : SolverId) (solver : Solver α)
    (tolerance : α) :
    Prop where
  found : world.solvers[id]? = some solver
  coherent : solver.Coherent
  settled : solver.Settled
  idle : solver.dispatching = false
  unheard : solver.Unheard
  isTolerance : solver.settings.tolerance = some tolerance
  nonnegative : 0 ≤ tolerance
  small : tolerance < 1
  finite : ∀ equation ∈ solver.equations,
    equation.toRow.all Scalar.isFinite = true

theorem Outer.diagnosable {patience depth : Nat} {tolerance : α}
    (outer : Outer (.ofDepth patience depth) world)
    (found : world.solvers[id]? = some solver) (unheard : solver.Unheard)
    (isTolerance : solver.settings.tolerance = some tolerance)
    (nonnegative : 0 ≤ tolerance) (small : tolerance < 1)
    (finite : ∀ equation ∈ solver.equations,
      equation.toRow.all Scalar.isFinite = true) :
    Diagnosable world id solver tolerance := by
  have sound : (Engine.ofDepth patience depth : Engine α).Sound :=
    Engine.ofDepth_sound patience depth
  have quiet := outer.quiet sound id solver found
  exact
    { found, unheard, isTolerance, nonnegative, small, finite
      coherent := (outer.represented sound id solver found).coherent
      settled := fun _ => ⟨quiet.draining, quiet.rested⟩
      idle := quiet.dispatching }

/-- What the diagnoses are and how they fit together, and that a solve keeps to
them. The `tableau` is the one that the solver assembles. -/
structure Diagnosed (engine : Engine α) (world : World α) (id : SolverId)
    (solver : Solver α) (tableau : Tableau α solver.unknowns.size)
    (isOver isUnder : Bool) (free : List VariableId) : Prop where
  assembled : solver.assemble = .ok tableau
  isOverConstrained : Answers world id .isOverConstrained (.truth isOver)
  isUnderConstrained : Answers world id .isUnderConstrained (.truth isUnder)
  freeVariables : Answers world id .freeVariables (.variableIds free)
  unchanged : ∀ (query : SolverQuery) (result : Except (Failure α) (Reply α))
    (after : World α), (Action.askSolver id query).Yields world result after →
      ∃ notes, after = world.annotate id notes
  sublist : free.Sublist solver.unknowns.keys
  counted : ∃ rank, free.length + rank = solver.unknowns.size ∧
    ∀ workbook : Workbook α,
    (workbook.perform ⟨solver.unknowns.size, tableau⟩ .rank).answer =
      .ok (.count rank)
  under : isUnder = true ↔ free ≠ []
  solves : ∃ result after,
    (Action.perform engine id Edit.writeSolution).Yields world result after ∧
      (result = .error .overConstrained ↔
        solver.settings.refusesContradiction = true ∧ isOver = true) ∧
      (result ≠ .error .overConstrained → result = .ok () ∧
        ∃ settled, after.solvers[id]? = some settled ∧
          ∀ id ∈ free, settled.valueOf id = solver.valueOf id)

/-- Diagnoses foretell what a solve comes to. -/
theorem solve_foretold [OrderedScalar α] {tolerance : α} {engine : Engine α}
    (diagnosable : Diagnosable world id solver tolerance)
    (patient : 0 < engine.patience) :
    ∃ tableau,
      Diagnosed engine world id solver tableau tableau.reduce.isOverConstrained
        tableau.reduce.isUnderConstrained (solver.freeIds tableau.reduce) := by
  rcases diagnosable with
    ⟨found, coherent, settled, idle, unheard, isTolerance, nonnegative, small,
      finite⟩
  rcases Solver.exists_assemble_of_finite isTolerance nonnegative finite with
    ⟨tableau, assembled, rfl, unreduced⟩
  have quiet : solver.Quiet := ⟨idle, (settled idle).1, (settled idle).2⟩
  have nodup := tableau.nodup_pivotColumns_reduce nonnegative small
  refine ⟨tableau, ?_⟩
  constructor
  · exact assembled
  · exact answers_isOverConstrained found assembled
  · exact answers_isUnderConstrained found assembled
  · exact answers_freeVariables found assembled
  · exact fun _ _ _ yields => Action.askSolver_annotates yields
  · exact solver.freeIds_sublist_keys tableau.reduce
  · refine ⟨tableau.reduce.rank,
      solver.length_freeIds_reduce nonnegative small, ?_⟩
    intro workbook
    exact (Workbook.inspect_reduced unreduced (.inl rfl) _).1
  · exact Solver.isUnderConstrained_iff_freeIds nodup
  · rcases exists_solve engine found unheard quiet patient with
      ⟨result, final, after, writes, performed, left⟩
    rcases writes.diagnosed idle coherent.unknownsNodup assembled with
      ⟨refused, kept⟩
    have same : ending result = .error .overConstrained ↔
        result = .error .overConstrained := by
      cases result <;> simp
    refine ⟨ending result, after, performed, same.trans refused,
      fun accepted => ?_⟩
    rcases kept fun isRefused => accepted (same.mpr isRefused) with
      ⟨⟨moved, rfl⟩, values⟩
    exact ⟨rfl, final, left, values⟩

/-- In floating point, with a contradiction that is ignored: `z` is free, and a
solve keeps it. -/
theorem solve_foretold_roundedWorld :
    ∃ solver tableau, Diagnosable roundedWorld 0 solver standardTolerance ∧
      0 < (Engine.ofDepth 9 3 : Engine Float).patience ∧
      Diagnosed (.ofDepth 9 3) roundedWorld 0 solver tableau true true [2] := by
  have isThere : roundedWorld.solvers[0]?.isSome = true := by decide +kernel
  have suited : ∀ solver ∈ roundedWorld.solvers[0]?,
      (∀ contents ∈ solver.unknowns.values, contents.hook = none) ∧
        solver.settings.tolerance = some standardTolerance ∧
        ∀ equation ∈ solver.equations,
        equation.toRow.all Scalar.isFinite = true := by
    decide +kernel
  have reads : ∀ solver ∈ roundedWorld.solvers[0]?,
      ∀ tableau ∈ solver.assemble.toOption,
        tableau.reduce.isOverConstrained = true ∧
        tableau.reduce.isUnderConstrained = true ∧
        solver.freeIds tableau.reduce = [2] := by
    decide +kernel
  rcases Option.isSome_iff_exists.mp isThere with ⟨solver, found⟩
  rcases suited solver found with ⟨unheard, isTolerance, finite⟩
  have outer : Outer (.ofDepth 9 3) roundedWorld :=
    outer_of_reached (.of_last _ _)
  have diagnosable : Diagnosable roundedWorld 0 solver standardTolerance :=
    outer.diagnosable found unheard isTolerance (by decide +kernel)
      (by decide +kernel) finite
  have patient : 0 < (Engine.ofDepth 9 3 : Engine Float).patience :=
    Nat.succ_pos 8
  rcases solve_foretold diagnosable patient with ⟨tableau, diagnosed⟩
  have isAssembled : tableau ∈ solver.assemble.toOption := by
    rw [diagnosed.assembled]
    rfl
  rcases reads solver found tableau isAssembled with ⟨isOver, isUnder, free⟩
  rw [isOver, isUnder, free] at diagnosed
  exact ⟨solver, tableau, diagnosable, patient, diagnosed⟩

end Session

end LiveLinear
