import LiveLinear.Proofs.Session.Accuracy
import LiveLinear.Proofs.Session.Outermost
import LiveLinear.Proofs.Solver.Solution

namespace LiveLinear

/-! # Solving twice

In every arithmetic whose comparisons are those of an order, floating point
among them, a second solve right after the first comes to the same: no rounding
creeps in. -/

variable {α : Type} [Scalar α] [OrderedScalar α] {tolerance : α}

theorem Workbook.perform_solve_again (workbook later : Workbook α) {n : Nat}
    {tableau : Tableau α n} (nonnegative : 0 ≤ tableau.tolerance)
    (small : tableau.tolerance < 1) (unreduced : tableau.reduced = false)
    {sheet : Sheet α}
    (shows : sheet = ⟨n, tableau⟩ ∨ sheet = ⟨n, tableau.reduce⟩)
    {block : Option (Block α)} {start : Vector α n}
    (starts : Sheet.start ⟨n, tableau⟩ block = .ok start) :
    ∃ values,
      (workbook.perform sheet (.solve block)).answer = .ok (.point values) ∧
      (later.perform (workbook.perform sheet (.solve block)).sheet
        (.solve (some (.ofValues values)))).answer = .ok (.point values) := by
  rcases workbook.perform_solve unreduced shows starts with ⟨answered, left⟩
  have startsAgain :=
    Sheet.start_ofValues ⟨n, tableau⟩ (tableau.reduce.solve start)
  rcases later.perform_solve unreduced (.inr left) startsAgain with
    ⟨answeredAgain, _⟩
  rw [tableau.solve_reduce_solve_reduce nonnegative small] at answeredAgain
  exact ⟨_, answered, answeredAgain⟩

namespace Session

variable {engine : Engine α} {world middle : World α} {name : String}
  {id : SolverId} {solver : Solver α} {reply : Reply α}

/-- A solve right after one that has succeeded leaves the solver as it was, and
makes notes only, among them that no variable has changed. -/
theorem exists_solve_again (named : world.labels.solvers.get? name = some id)
    (found : world.solvers[id]? = some solver) (unheard : solver.Unheard)
    (quiet : solver.Quiet)
    (isTolerance : solver.settings.tolerance = some tolerance)
    (nonnegative : 0 ≤ tolerance) (small : tolerance < 1)
    (yields :
      (Action.execute engine none (.operation (.solve name))).Yields world
        (.ok reply) middle) :
    ∃ settled, ∃ notes : List (Note α), ∃ count,
      middle.solvers[id]? = some settled ∧
        (Action.execute engine none (.operation (.solve name))).Yields middle
          (.ok .nothing) (middle.adopt id ⟨settled, notes⟩) ∧
        .solved count 0 ∈ notes := by
  rcases writeSolution_of_yields named found unheard quiet yields with
    ⟨moved, draft, written, isMiddle⟩
  have unheardAfter := (Edit.writeSolution_cases written).1.unheard unheard
  have quietAfter := quiet.of_steady (Edit.writeSolution_steady _ _ _ written)
  have foundAfter : middle.solvers[id]? = some draft.solver := by
    rw [isMiddle, World.solvers_heard]
    exact World.getElem?_adopt_self draft found
  have namedAfter : middle.labels.solvers.get? name = some id := by
    rw [isMiddle, World.labels_heard]
    exact named
  have again : ∃ notes, Edit.writeSolution.Yields ⟨draft.solver, []⟩ (.ok [])
      ⟨draft.solver, .solved draft.solver.unknowns.size 0 :: notes⟩ := by
    have writes := (Edit.writeSolution_cases written).1
    generalize draft.solver = settled at writes
    cases writes with
    | deferred busy =>
        rw [quiet.dispatching] at busy
        cases busy
    | @written tableau idle assembled accepted =>
        have same := Solver.tolerance_of_assembled assembled isTolerance
        subst same
        exact Edit.exists_writeSolution_written idle assembled accepted
          nonnegative small
  rcases again with ⟨notes, writtenAgain⟩
  exact ⟨_, _, _, foundAfter,
    yields_solve namedAfter foundAfter writtenAgain unheardAfter quietAfter
    (.inl rfl), List.mem_cons_self⟩

/-- Solving twice is solving once, at every tolerance from zero to below one. A
sheet asked for the solution from its own answer gives that answer again. A
solve right after one that has succeeded, of a solver without hooks, leaves the
solver as it was and makes notes only, among them that no variable has changed,
whether or not contradictions are refused. -/
theorem solve_repeats (nonnegative : 0 ≤ tolerance) (small : tolerance < 1) :
    (∀ (workbook later : Workbook α) (n : Nat) (tableau : Tableau α n)
      (sheet : Sheet α) (block : Option (Block α)) (start : Vector α n),
      tableau.tolerance = tolerance → tableau.reduced = false →
      sheet = ⟨n, tableau⟩ ∨ sheet = ⟨n, tableau.reduce⟩ →
      Sheet.start ⟨n, tableau⟩ block = .ok start →
        ∃ values,
          (workbook.perform sheet (.solve block)).answer = .ok (.point values) ∧
          (later.perform (workbook.perform sheet (.solve block)).sheet
            (.solve (some (.ofValues values)))).answer = .ok (.point values)) ∧
      ∀ (patience depth : Nat) (world middle : World α) (name : String)
        (id : SolverId) (solver : Solver α) (reply : Reply α),
        Outer (.ofDepth patience depth) world →
        world.labels.solvers.get? name = some id →
        world.solvers[id]? = some solver → solver.Unheard →
        solver.settings.tolerance = some tolerance →
        (Action.execute (.ofDepth patience depth) none
          (.operation (.solve name))).Yields world (.ok reply) middle →
          ∃ settled, ∃ notes : List (Note α), ∃ count,
            middle.solvers[id]? = some settled ∧
              (Action.execute (.ofDepth patience depth) none
                (.operation (.solve name))).Yields middle (.ok .nothing)
                  (middle.adopt id ⟨settled, notes⟩) ∧
              .solved count 0 ∈ notes := by
  constructor
  · rintro workbook later n tableau sheet block start rfl unreduced shows starts
    exact workbook.perform_solve_again later nonnegative small unreduced
      shows starts
  · intro patience depth world middle name id solver reply outer named found
      unheard isTolerance yields
    have quiet :=
      outer.quiet (Engine.ofDepth_sound patience depth) id solver found
    exact exists_solve_again named found unheard quiet isTolerance nonnegative
      small yields

/-- Three equations over three unknowns in floating point, the last of which
contradicts the second one. -/
def roundedExample : Tableau Float 3 :=
  { equations := [⟨#v[3, 1, 1], 0.7⟩, ⟨#v[1, 0, 0], 0.1⟩, ⟨#v[1, 0, 0], 0.2⟩]
    tolerance := standardTolerance
    reduced := false }

/-- A world with a solver that ignores contradictions, over the same
equations. -/
def roundedWorld : World Float :=
  ((play (.ofDepth 9 3) .empty
    [.operation
      (.newSolver "s" false false (.literal (some standardTolerance)) 10),
      .operation (.addVariable "s" "x" none (.literal (some 0.3))),
      .operation (.addVariable "s" "y" none (.literal (some 0.3))),
      .operation (.addVariable "s" "z" none (.literal (some 0.3))),
      .operation (.addConstraint "s" (some "c")
        [(.label "x", .literal (some 3)), (.label "y", .literal (some 1)),
          (.label "z", .literal (some 1))]
        (.literal (some 0.7))),
      .operation (.addConstraint "s" (some "d")
        [(.label "x", .literal (some 1))] (.literal (some 0.1))),
      .operation (.addConstraint "s" (some "e")
        [(.label "x", .literal (some 1))] (.literal (some 0.2)))
    ]).getLast?.map Step.world).getD .empty

theorem solve_repeats_roundedWorld :
    (∃ values,
      (Workbook.perform [] ⟨3, roundedExample⟩ (.solve none)).answer =
        .ok (.point values) ∧
        (Workbook.perform []
          (Workbook.perform [] ⟨3, roundedExample⟩ (.solve none)).sheet
            (.solve (some (.ofValues values)))).answer = .ok (.point values)) ∧
      ∃ done settled, ∃ notes : List (Note Float), ∃ count,
        step (.ofDepth 9 3) roundedWorld (.operation (.solve "s")) = some done ∧
          done.outcome.isOk = true ∧ done.world.solvers[0]? = some settled ∧
          (Action.execute (.ofDepth 9 3) none (.operation (.solve "s"))).Yields
            done.world (.ok .nothing) (done.world.adopt 0 ⟨settled, notes⟩) ∧
          .solved count 0 ∈ notes := by
  have nonnegative : 0 ≤ standardTolerance := by decide +kernel
  have small : standardTolerance < 1 := by decide +kernel
  have isThere : roundedWorld.solvers[0]?.isSome = true := by decide +kernel
  have suited : ∀ solver ∈ roundedWorld.solvers[0]?,
      (∀ contents ∈ solver.unknowns.values, contents.hook = none) ∧
        solver.settings.tolerance = some standardTolerance := by decide +kernel
  have steps :
      (step (.ofDepth 9 3) roundedWorld (.operation (.solve "s"))).isSome =
        true := by
    decide +kernel
  have returns :
      ∀ done ∈ step (.ofDepth 9 3) roundedWorld (.operation (.solve "s")),
      done.outcome.isOk = true := by decide +kernel
  rcases Option.isSome_iff_exists.mp isThere with ⟨before, found⟩
  rcases Option.isSome_iff_exists.mp steps with ⟨done, stepped⟩
  rcases suited before found with ⟨unheard, isTolerance⟩
  rcases solve_repeats nonnegative small with ⟨sheets, solvers⟩
  have returned := returns done stepped
  have outer : Outer (.ofDepth 9 3) roundedWorld :=
    outer_of_reached (.of_last _ _)
  have yields := yields_of_step stepped
  cases outcome : done.outcome with
  | error failure =>
      rw [outcome] at returned
      cases returned
  | ok reply =>
      rw [outcome] at yields
      rcases solvers 9 3 roundedWorld done.world "s" 0 before reply outer
        (by decide +kernel) found unheard isTolerance yields with
        ⟨settled, notes, count, left, again, noted⟩
      refine ⟨?_, done, settled, notes, count, stepped, returned, left,
        again, noted⟩
      exact sheets [] [] 3 roundedExample _ none _ rfl rfl (.inl rfl) rfl

end Session

end LiveLinear
