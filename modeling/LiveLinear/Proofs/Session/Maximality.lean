import LiveLinear.Proofs.Session.Accuracy
import LiveLinear.Proofs.Session.Outermost
import LiveLinear.Proofs.Solver.Maximality

namespace LiveLinear

/-! # Solving a contradictory system in a session

What a solve of a solver without hooks comes to that ignores contradictions, in
exact arithmetic and at tolerance zero. -/

namespace Session

variable {world : World ℚ} {name : String} {id : SolverId} {before : Solver ℚ}

/-- A solve that ignores contradictions succeeds. The constraints that are
satisfied afterwards are a maximal part of those that can hold at once, and a
warning is given exactly if that is not all of them. -/
theorem solve_maximal {patience depth : Nat}
    (outer : Outer (.ofDepth (patience + 1) depth) world)
    (named : world.labels.solvers.get? name = some id)
    (found : world.solvers[id]? = some before) (unheard : before.Unheard)
    (isZero : before.settings.tolerance = some 0)
    (ignores : before.settings.refusesContradiction = false) :
    ∃ after final, ∃ events : List (Event ℚ),
      (Action.execute (.ofDepth (patience + 1) depth) none
          (.operation (.solve name))).Yields world (.ok .nothing) after ∧
        after.history = events ++ world.history ∧
        after.solvers[id]? = some final ∧
        final.unknowns.keys = before.unknowns.keys ∧
        final.constraints = before.constraints ∧ final.Maximal ∧
        ((∃ note, .noted id note ∈ events ∧ note.warning?.isSome = true) ↔
          ∃ constraint ∈ final.constraints.values,
            final.isSatisfied constraint = .ok false) := by
  have sound : (Engine.ofDepth (patience + 1) depth : Engine ℚ).Sound :=
    Engine.ofDepth_sound (patience + 1) depth
  have patient :
      0 < (Engine.ofDepth (patience + 1) depth : Engine ℚ).patience := by
    rw [Engine.patience_ofDepth]
    exact Nat.succ_pos patience
  have quiet := outer.quiet sound id before found
  have coherent := (outer.represented sound id before found).coherent
  rcases Solver.exists_assemble isZero with ⟨tableau, assembled, _⟩
  have written :=
    Edit.yields_writeSolution quiet.dispatching assembled (fun _ => ignores) []
  let adopted :=
    world.adopt id ⟨before.written tableau, before.solveNotes tableau ++ []⟩
  have yields : (Action.execute (.ofDepth (patience + 1) depth) none
      (.operation (.solve name))).Yields world (.ok .nothing)
        (adopted.heard id (before.changed tableau)) :=
    yields_solve named found written unheard quiet (.inr patient)
  rcases adopted.history_heard id (before.changed tableau) with
    ⟨rounds, history, unnoted⟩
  refine ⟨_, before.written tableau,
    rounds ++ (before.solveNotes tableau ++ []).map (.noted id), yields, ?_, ?_,
    Solver.Coherent.keys_storePoint before _, rfl,
    before.written_maximal coherent isZero assembled, ?_⟩
  · rw [history, List.append_assoc]
    rfl
  · rw [World.solvers_heard]
    exact World.getElem?_adopt_self _ found
  · have warned : (∃ note, .noted id note ∈
          rounds ++ (before.solveNotes tableau ++ []).map (.noted id) ∧
            note.warning?.isSome = true) ↔
        ∃ note ∈ before.solveNotes tableau, note.warning?.isSome = true := by
      simp [unnoted]
    rw [warned, Solver.exists_warning_iff]
    exact Solver.isOverConstrained_iff_exists_unsatisfied coherent isZero
      assembled

/-- A world in which two of the constraints fix a variable at different values
and a third one follows from the first. -/
def dividedWorld : World ℚ :=
  ((play (.ofDepth 9 3) .empty
    [.operation (.newSolver "s" false false (.literal (some 0)) 10),
      .operation (.addVariable "s" "x" none (.literal (some 0))),
      .operation (.addVariable "s" "y" none (.literal (some 0))),
      .operation (.addConstraint "s" (some "c")
        [(.label "x", .literal (some 1))] (.literal (some 1))),
      .operation (.addConstraint "s" (some "d")
        [(.label "x", .literal (some 1))] (.literal (some 2))),
      .operation (.addConstraint "s" (some "e")
        [(.label "x", .literal (some 3))] (.literal (some 3))),
      .operation (.addConstraint "s" (some "f")
        [(.label "x", .literal (some 1)), (.label "y", .literal (some 1))]
        (.literal (some 5)))]).getLast?.map Step.world).getD .empty

theorem solve_maximal_dividedWorld :
    ∃ before, dividedWorld.solvers[0]? = some before ∧ before.Unheard ∧
      before.settings.tolerance = some 0 ∧
      before.settings.refusesContradiction = false ∧ ∃ after final,
        ∃ events : List (Event ℚ),
            (Action.execute (.ofDepth 9 3) none
              (.operation (.solve "s"))).Yields dividedWorld (.ok .nothing)
              after ∧
          after.history = events ++ dividedWorld.history ∧
          after.solvers[0]? = some final ∧
          final.unknowns.keys = before.unknowns.keys ∧
          final.constraints = before.constraints ∧ final.Maximal ∧
          ((∃ note, .noted 0 note ∈ events ∧ note.warning?.isSome = true) ↔
            ∃ constraint ∈ final.constraints.values,
              final.isSatisfied constraint = .ok false) := by
  have isThere : dividedWorld.solvers[0]?.isSome = true := by decide +kernel
  have suited : ∀ solver ∈ dividedWorld.solvers[0]?,
      (∀ contents ∈ solver.unknowns.values, contents.hook = none) ∧
        solver.settings.tolerance = some 0 ∧
        solver.settings.refusesContradiction = false := by decide +kernel
  rcases Option.isSome_iff_exists.mp isThere with ⟨before, found⟩
  rcases suited before found with ⟨unheard, isZero, ignores⟩
  have outer : Outer (.ofDepth 9 3) dividedWorld :=
    outer_of_reached (.of_last _ _)
  exact ⟨before, found, unheard, isZero, ignores,
    solve_maximal outer (by decide +kernel) found unheard isZero ignores⟩

end Session

end LiveLinear
