import LiveLinear.Proofs.Session.Assignment
import LiveLinear.Proofs.Session.Outermost
import LiveLinear.Proofs.Solver.Connection
import LiveLinear.Proofs.Solver.Notifying

namespace LiveLinear

/-! # Edits and connected variables in a session

Which variables keep their values when a variable of a solver without hooks is
given one, or one of its constraints is edited. -/

theorem Solver.Rewrites.unheard {α : Type} [Scalar α]
    {before middle after : Solver α} {id : ConstraintId}
    {result : Except (Failure α) (List VariableId)}
    (rewrites : before.Rewrites middle id) (writes : middle.Writes result after)
    (unheard : before.Unheard) : after.Unheard := by
  apply writes.unheard
  rw [Unheard, rewrites.unknowns]
  exact unheard

namespace Session

section Carried

variable {α : Type} [Scalar α] {engine : Engine α} {id : SolverId}
  {task : Task α} {world after : World α} {solver : Solver α}

/-- What an operation has done that nobody hears of, if it has not failed. -/
theorem Carries.exists_edit
    (carries : Carries engine id task world (.ok ()) after)
    (found : world.solvers[id]? = some solver) (quiet : solver.Quiet)
    (unheard : ∀ moved draft, task.edit.Yields ⟨solver, []⟩ (.ok moved) draft →
      draft.solver.Unheard) :
    ∃ moved draft, task.edit.Yields ⟨solver, []⟩ (.ok moved) draft ∧
      after.solvers[id]? = some draft.solver := by
  rcases carries.cases with
    ⟨_, impossible, _⟩ | ⟨same, draft, isSame, failed | done⟩
  · cases impossible
  · rcases failed with ⟨_, _, impossible, _⟩
    cases impossible
  · rcases done with ⟨moved, final, yields, announced, like⟩
    rw [found] at isSame
    cases isSame
    have adopted := World.getElem?_adopt_self draft found
    have unheardAfter := unheard moved draft yields
    have quietAfter := quiet.of_steady (Task.edit_steady _ _ _ _ yields)
    have patient :=
      Action.patient_of_announce adopted unheardAfter quietAfter announced
    have heard :=
      Action.announce_of_unheard adopted unheardAfter quietAfter patient
    refine ⟨moved, draft, yields, ?_⟩
    rw [like.solvers, (heard.unique announced).2, World.solvers_heard]
    exact adopted

end Carried

section Prompt

variable {engine : Engine ℚ} {id : SolverId} {world after : World ℚ}
  {before : Solver ℚ} (found : world.solvers[id]? = some before)
  (quiet : before.Quiet) (unheard : before.Unheard) (prompt : before.Prompt)
  (satisfied : before.Satisfied)
include found quiet unheard prompt satisfied

theorem Carries.movesWithin_connected {handle : VariableHandle} {value : ℚ}
    (carries : Carries engine id (.setValue handle (some value)) world (.ok ())
      after) :
    ∃ final, after.solvers[id]? = some final ∧
      before.MovesWithin final (before.Connected handle.id) := by
  have applies : ∀ moved draft,
      (Task.setValue handle (some value)).edit.Yields ⟨before, []⟩ (.ok moved)
        draft →
        Draft.Applies ⟨before, []⟩ handle.id value (.ok moved) draft := by
    intro moved draft yields
    rcases Edit.setValue_cases quiet.dispatching yields with
      ⟨⟨_, impossible⟩, _⟩ | applied
    · cases impossible
    · exact Edit.applyValue_cases applied
  have unheardAfter : ∀ moved draft,
      (Task.setValue handle (some value)).edit.Yields ⟨before, []⟩ (.ok moved)
        draft → draft.solver.Unheard :=
    fun moved draft yields => (applies moved draft yields).unheard unheard
  rcases carries.exists_edit found quiet unheardAfter with
    ⟨moved, draft, yields, left⟩
  exact ⟨draft.solver, left,
    (applies moved draft yields).movesWithin prompt satisfied⟩

theorem Carries.movesWithin_reached {task : Task ℚ} {edited : ConstraintId}
    (edits : task.edited? before = some edited)
    (carries : Carries engine id task world (.ok ()) after) :
    ∃ final constraint, after.solvers[id]? = some final ∧
      final.constraints.get? edited = some constraint ∧
      before.MovesWithin final (final.Reaches constraint.Involves) := by
  have rewrites : ∀ moved draft,
      task.edit.Yields ⟨before, []⟩ (.ok moved) draft → ∃ middle,
        before.Rewrites middle edited ∧ middle.Coherent ∧
        middle.Writes (.ok moved) draft.solver := by
    intro moved draft yields
    rcases Task.exists_rewrites edits prompt.coherent yields with
      ⟨middle, rewritten, coherent, written⟩
    exact ⟨middle, rewritten, coherent,
      Edit.writes_of_writeIfAuto written (rewritten.settings ▸ prompt.auto)⟩
  have unheardAfter : ∀ moved draft,
      task.edit.Yields ⟨before, []⟩ (.ok moved) draft →
      draft.solver.Unheard := by
    intro moved draft yields
    rcases rewrites moved draft yields with ⟨_, rewritten, _, writes⟩
    exact rewritten.unheard writes unheard
  rcases carries.exists_edit found quiet unheardAfter with
    ⟨moved, draft, yields, left⟩
  rcases rewrites moved draft yields with ⟨middle, rewritten, coherent, writes⟩
  rcases rewritten.exists_movesWithin coherent prompt satisfied writes with
    ⟨constraint, isEdited, moves⟩
  exact ⟨draft.solver, constraint, left, isEdited, moves⟩

end Prompt

/-- Edits of a solver that solves by itself in exact arithmetic, whose
constraints are satisfied and which has no hooks. A value that is taken moves
only variables that are connected to the one that has been given it, and an edit
of a constraint only those that are connected to a variable that the constraint
involves afterwards. -/
theorem carries_movesWithin {patience depth : Nat} {id : SolverId}
    {world : World ℚ} {before : Solver ℚ}
    (outer : Outer (.ofDepth patience depth) world)
    (found : world.solvers[id]? = some before) (unheard : before.Unheard)
    (auto : before.settings.autoSolve = true) (exactly : before.settings.Exact)
    (satisfied : before.Satisfied) :
    (∀ (handle : VariableHandle) (value : ℚ) (after : World ℚ),
      Carries (.ofDepth patience depth) id (.setValue handle (some value)) world
        (.ok ()) after →
      ∃ final, after.solvers[id]? = some final ∧
        before.MovesWithin final (before.Connected handle.id)) ∧
    ∀ (task : Task ℚ) (edited : ConstraintId) (after : World ℚ),
      task.edited? before = some edited →
      Carries (.ofDepth patience depth) id task world (.ok ()) after →
      ∃ final constraint, after.solvers[id]? = some final ∧
        final.constraints.get? edited = some constraint ∧
        before.MovesWithin final fun other =>
          ∃ involved, constraint.Involves involved ∧
            final.Connected involved other := by
  have sound : (Engine.ofDepth patience depth : Engine ℚ).Sound :=
    Engine.ofDepth_sound patience depth
  have quiet := outer.quiet sound id before found
  have coherent := (outer.represented sound id before found).coherent
  have prompt : before.Prompt := ⟨coherent, exactly, auto, quiet.dispatching⟩
  constructor
  · intro handle value after carries
    exact carries.movesWithin_connected found quiet unheard prompt satisfied
  · intro task edited after edits carries
    exact carries.movesWithin_reached found quiet unheard prompt satisfied edits

/-- A world with two pairs of variables. A constraint on the second pair has a
term for a variable of the first one, but with coefficient zero. -/
def pairedWorld : World ℚ :=
  ((play (.ofDepth 9 3) .empty
    [.operation (.newSolver "s" true true (.literal (some 0)) 10),
      .operation (.addVariable "s" "x" none (.literal (some 1))),
      .operation (.addVariable "s" "y" none (.literal (some 2))),
      .operation (.addVariable "s" "z" none (.literal (some 3))),
      .operation (.addVariable "s" "w" none (.literal (some 4))),
      .operation (.addConstraint "s" (some "c")
        [(.label "x", .literal (some 1)), (.label "y", .literal (some 1))]
        (.literal (some 3))),
      .operation (.addConstraint "s" (some "d")
        [(.label "z", .literal (some 1)), (.label "w", .literal (some 1)),
          (.label "x", .literal (some 0))]
        (.literal (some 7)))]).getLast?.map Step.world).getD .empty

theorem exists_carries_of_run {engine : Engine ℚ} {id : SolverId}
    {task : Task ℚ} {world : World ℚ} {ids : List VariableId} {values : List ℚ}
    (ran : (((Action.perform engine id task.edit).run.run world).bind fun run =>
      run.1.toOption.bind fun _ =>
        run.2.solvers[id]?.map fun solver => ids.map solver.valueOf) =
          some values) :
    ∃ after, Carries engine id task world (.ok ()) after ∧
      ∀ final : Solver ℚ, after.solvers[id]? = some final →
        ids.map final.valueOf = values := by
  rcases Option.bind_eq_some_iff.mp ran with ⟨⟨_ | _, after⟩, yields, isAfter⟩
  · cases isAfter
  · refine ⟨after, .performed yields, fun final left => ?_⟩
    rw [left] at isAfter
    exact Option.some.inj isAfter

theorem not_connected_pairedWorld {before : Solver ℚ}
    (found : pairedWorld.solvers[0]? = some before) :
    ¬before.Connected 0 2 := by
  have split : ∀ solver ∈ pairedWorld.solvers[0]?,
      ∀ constraint ∈ solver.constraints.values,
        (∀ term ∈ constraint.terms.entries, term.2 ≠ 0 → term.1 < 2) ∨
        ∀ term ∈ constraint.terms.entries, term.2 ≠ 0 → ¬term.1 < 2 := by
        decide +kernel
  have involved : ∀ {constraint : Constraint ℚ} {id : VariableId},
      constraint.Involves id → ∃ coefficient,
      (id, coefficient) ∈ constraint.terms.entries ∧ coefficient ≠ 0 := by
    intro constraint id involves
    cases isTerm : constraint.terms.get? id with
    | none => exact absurd (congrArg (Option.getD · 0) isTerm) involves
    | some coefficient =>
        refine ⟨coefficient, Table.mem_entries_of_get? isTerm, fun isZero =>
          involves ?_⟩
        rw [isTerm, isZero]
        rfl
  have first : ∀ {id : VariableId}, before.Connected 0 id → id < 2 := by
    intro id connected
    induction connected with
    | refl => decide
    | tail _ linked induction =>
        rcases linked with ⟨constraint, member, involves, involvesNext⟩
        rcases involved involves with ⟨coefficient, entry, nonzero⟩
        rcases involved involvesNext with ⟨next, nextEntry, nextNonzero⟩
        rcases split before found constraint member with low | high
        · exact low _ nextEntry nextNonzero
        · exact absurd induction (high _ entry nonzero)
  exact fun connected => absurd (first connected) (by decide)

theorem carries_movesWithin_pairedWorld :
    ∃ before, pairedWorld.solvers[0]? = some before ∧ before.Unheard ∧
      before.settings.autoSolve = true ∧ before.settings.Exact ∧
      before.Satisfied ∧ ¬before.Connected 0 2 ∧
      (∃ after, ∃ final : Solver ℚ,
        Carries (.ofDepth 9 3) 0 (.setValue ⟨0, 0⟩ (some 5)) pairedWorld
          (.ok ()) after ∧ after.solvers[0]? = some final ∧
          before.MovesWithin final (before.Connected 0) ∧
          List.map final.valueOf [0, 1, 2, 3] = [5, -2, 3, 4]) ∧
      ∃ after, ∃ final : Solver ℚ, ∃ constraint,
        Carries (.ofDepth 9 3) 0 (.setTerm ⟨0, 0⟩ (.handle ⟨0, 1⟩) (some 4))
            pairedWorld (.ok ()) after ∧
          after.solvers[0]? = some final ∧
          final.constraints.get? 0 = some constraint ∧
          (before.MovesWithin final fun other =>
            ∃ involved, constraint.Involves involved ∧
              final.Connected involved other) ∧
          List.map final.valueOf [0, 1, 2, 3] = [-5, 2, 3, 4] := by
  have isThere : pairedWorld.solvers[0]?.isSome = true := by decide +kernel
  have suited : ∀ solver ∈ pairedWorld.solvers[0]?,
      (∀ contents ∈ solver.unknowns.values, contents.hook = none) ∧
        solver.settings.autoSolve = true ∧ solver.settings.tolerance = some 0 ∧
        solver.settings.refusesContradiction = true ∧
        ∀ constraint ∈ solver.constraints.values,
        solver.residual constraint = 0 := by
    decide +kernel
  rcases Option.isSome_iff_exists.mp isThere with ⟨before, found⟩
  rcases suited before found with ⟨unheard, auto, isZero, refuses, satisfied⟩
  have outer : Outer (.ofDepth 9 3) pairedWorld :=
    outer_of_reached (.of_last _ _)
  rcases carries_movesWithin outer found unheard auto ⟨isZero, refuses⟩
    satisfied with
    ⟨values, constraints⟩
  have ranValue : ∃ after : World ℚ,
      Carries (.ofDepth 9 3) 0 (.setValue ⟨0, 0⟩ (some 5)) pairedWorld (.ok ())
        after ∧ ∀ final : Solver ℚ, after.solvers[0]? = some final →
          List.map final.valueOf [0, 1, 2, 3] = [5, -2, 3, 4] := by
    apply exists_carries_of_run
    decide +kernel
  have ranTerm : ∃ after : World ℚ,
      Carries (.ofDepth 9 3) 0 (.setTerm ⟨0, 0⟩ (.handle ⟨0, 1⟩) (some 4))
          pairedWorld (.ok ()) after ∧
        ∀ final : Solver ℚ, after.solvers[0]? = some final →
          List.map final.valueOf [0, 1, 2, 3] = [-5, 2, 3, 4] := by
    apply exists_carries_of_run
    decide +kernel
  refine ⟨before, found, unheard, auto, ⟨isZero, refuses⟩, satisfied,
    not_connected_pairedWorld found, ?_, ?_⟩
  · rcases ranValue with ⟨after, carries, ends⟩
    rcases values _ _ _ carries with ⟨final, left, moves⟩
    exact ⟨after, final, carries, left, moves, ends final left⟩
  · rcases ranTerm with ⟨after, carries, ends⟩
    rcases constraints _ 0 _ rfl carries with
      ⟨final, constraint, left, isEdited, moves⟩
    exact ⟨after, final, constraint, carries, left, isEdited, moves,
      ends final left⟩

end Session

end LiveLinear
