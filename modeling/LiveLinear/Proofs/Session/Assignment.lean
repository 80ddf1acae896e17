import LiveLinear.Proofs.Session.Accuracy
import LiveLinear.Proofs.Solver.Assignment

namespace LiveLinear

/-! # Giving a variable a value in a session

A value that is asked for between other commands, of a solver that solves by
itself in exact arithmetic and has no hooks: what is answered, and what the
solver is like afterwards. -/

namespace Solver

variable {α : Type} {solver before after : Solver α}

namespace Unheard

theorem modifyVariable (unheard : solver.Unheard) (id : VariableId)
    {change : Variable α → Variable α}
    (same : ∀ contents, (change contents).hook = contents.hook) :
    (solver.modifyVariable id change).Unheard := by
  intro contents member
  rcases Table.mem_values_modify member with old | ⟨former, old, isChanged⟩
  · exact unheard contents old
  · rw [isChanged, same]
    exact unheard former old

theorem storeValue (unheard : solver.Unheard) (id : VariableId) (value : α) :
    (solver.storeValue id value).Unheard :=
  unheard.modifyVariable id fun _ => rfl

theorem release (unheard : solver.Unheard) (id : VariableId) :
    (solver.release id).Unheard := by
  unfold Solver.release
  split
  · exact unheard.modifyVariable id fun _ => rfl
  · exact unheard

theorem pin [One α] (unheard : solver.Unheard) (id : VariableId) :
    (solver.pin id).Unheard := by
  unfold Solver.pin
  split
  · exact unheard
  · exact unheard.modifyVariable id fun _ => rfl

theorem holdAt [Scalar α] (unheard : solver.Unheard) (id : VariableId)
    (value : α) :
    (solver.holdAt id value).Unheard :=
  ((unheard.storeValue id value).release id).pin id

theorem letGo [Scalar α] (unheard : solver.Unheard) (id : VariableId)
    (former : Variable α) (moved : List VariableId) :
    (solver.letGo id former (.ok moved)).Unheard := by
  dsimp only [Solver.letGo]
  split
  · exact unheard
  · exact unheard.release id

end Unheard

theorem checkVariable_of_variableAt {handle : VariableHandle}
    {contents : Variable α} (found : solver.variableAt handle = .ok contents) :
    solver.checkVariable (.handle handle) = .ok handle.id := by
  have present := (Table.contains_eq_true_iff _ _).mpr
    (Table.mem_keys_of_get? (get?_of_variableAt found))
  unfold variableAt at found
  unfold checkVariable
  split at found
  · cases found
  · next own =>
      dsimp only
      rw [if_neg own, if_pos present]

end Solver

/-- Nobody hears of a value that is taken. -/
theorem Draft.Applies.unheard [Scalar α] {before after : Draft α}
    {id : VariableId} {value : α} {moved : List VariableId}
    (applies : before.Applies id value (.ok moved) after)
    (unheard : before.solver.Unheard) : after.solver.Unheard := by
  generalize isResult : Except.ok moved = result at applies
  cases applies with
  | absent _ | noNews _ _ _ => exact unheard
  | unread _ _ => cases isResult
  | @held former _ outcome middle _ _ _ written =>
      have held := unheard.holdAt id value
      have heldAfter : middle.solver.Unheard := by
        rcases Edit.writeIfAuto_cases written with ⟨_, writes⟩ | ⟨_, _, rfl⟩
        · exact writes.unheard held
        · exact held
      cases outcome with
      | error failure => cases isResult
      | ok others => exact heldAfter.letGo id former others

namespace Session

variable {engine : Engine ℚ} {world : World ℚ} {name : String} {id : SolverId}
  {solver : Solver ℚ}

/-- Where the constraints are satisfied, a solve that nobody hears of moves
nothing. -/
theorem exists_step_solve (patient : 0 < engine.patience)
    (named : world.labels.solvers.get? name = some id)
    (found : world.solvers[id]? = some solver) (coherent : solver.Coherent)
    (exactly : solver.settings.Exact) (satisfied : solver.Satisfied)
    (unheard : solver.Unheard) (quiet : solver.Quiet) :
    ∃ done after, step engine world (.operation (.solve name)) = some done ∧
      done.outcome = .ok .nothing ∧ done.world.solvers[id]? = some after ∧
      after.unknowns = solver.unknowns := by
  rcases run : Edit.writeSolution.run ⟨solver, []⟩ with ⟨result, draft⟩
  have written : Edit.writeSolution.Yields ⟨solver, []⟩ result draft := run
  have writes := (Edit.writeSolution_cases written).1
  rcases writes.of_solvable quiet.dispatching coherent exactly
    satisfied.solvable with
    ⟨moved, target, rfl, isAfter, _, stays⟩
  rw [stays satisfied, Solver.storePoint_point] at isAfter
  rcases step_of_yields
    (yields_solve named found written unheard quiet (.inr patient)) with
    ⟨events, stepped⟩
  refine ⟨_, draft.solver, stepped, rfl, ?_, ?_⟩
  · rw [World.solvers_heard]
    exact World.getElem?_adopt_self draft found
  · rw [isAfter]
    rfl

/-- A value asked for between two commands that is not the one that the variable
has: of a solver that solves by itself in exact arithmetic and has no hooks. -/
structure Assigns (engine : Engine ℚ) (world : World ℚ) (subject : String)
    (handle : VariableHandle) (before : Solver ℚ) (value : ℚ) : Prop where
  reached : Reached engine world
  labelled : world.labels.unknowns.get? subject = some handle
  found : world.solvers[handle.solver]? = some before
  news : ∃ former, before.variableAt handle = .ok former ∧ value ≠ former.value
  unheard : before.Unheard
  auto : before.settings.autoSolve = true
  exactly : before.settings.Exact

variable {subject : String} {handle : VariableHandle} {before : Solver ℚ}
  {value : ℚ}

theorem yields_setValue
    (labelled : world.labels.unknowns.get? subject = some handle)
    {outcome : Ending ℚ} {after : World ℚ}
    (performed :
      (Action.perform engine handle.solver
        (Edit.setValue handle (some value))).Yields world outcome after)
    (style : Style) :
    (Action.execute engine none
      (.operation (.setValue subject (.literal (some value)) style))).Yields
      world (outcome.map fun _ => Action.styled style) after := by
  simp only [Action.execute, Action.operate, Action.variableNamed,
    Action.evaluate]
  rw [Action.yields_lookUp_bind labelled, Action.yields_pure_bind]
  cases outcome with
  | error failure =>
      exact Action.yields_bind.mpr (.inl ⟨failure, performed, rfl⟩)
  | ok _ =>
      rw [Action.yields_bind_of_ok performed]
      exact Action.yields_pure.mpr ⟨rfl, rfl⟩

theorem applies_of_setValue {former : Variable ℚ}
    (live : before.variableAt handle = .ok former)
    (idle : before.dispatching = false)
    {result : Except (Failure ℚ) (List VariableId)} {draft : Draft ℚ}
    (yields : (Edit.setValue handle (some value)).Yields ⟨before, []⟩ result
      draft) :
    Draft.Applies ⟨before, []⟩ handle.id value result draft := by
  have checked := Solver.checkVariable_of_variableAt live
  have number : finite .variableValue (some value) = .ok value := rfl
  simp only [Edit.setValue, Edit.yields_check_bind, checked,
    Edit.yields_ofOutcome_bind, number, Edit.yields_current_bind, idle,
    reduceCtorEq, false_and, exists_false, false_or, Except.ok.injEq,
    exists_eq_left', Bool.false_eq_true, if_false] at yields
  exact Edit.applyValue_cases yields

/-- If the constraints but for its own lock allow it, the variable takes the
value, all constraints are satisfied, and solving again moves nothing. Otherwise
the operation is refused, and every variable has its value and its lock back. -/
theorem Assigns.step_setValue {patience depth : Nat}
    (assigns : Assigns (.ofDepth (patience + 1) depth) world subject handle
      before value)
    (style : Style) :
    ∃ done after,
      step (.ofDepth (patience + 1) depth) world
          (.operation (.setValue subject (.literal (some value)) style)) =
            some done ∧
        done.world.solvers[handle.solver]? = some after ∧
        (before.Admits handle.id value →
          done.outcome = .ok (Action.styled style) ∧
            before.Assigned after handle.id value ∧
            (∀ constraint ∈ (before.apart handle.id).values,
              after.residual constraint = 0) ∧
            ∀ name, world.labels.solvers.get? name = some handle.solver →
              ∃ again final,
                step (.ofDepth (patience + 1) depth) done.world
                    (.operation (.solve name)) = some again ∧
                  again.outcome = .ok .nothing ∧
                  again.world.solvers[handle.solver]? = some final ∧
                  final.unknowns = after.unknowns) ∧
        (¬before.Admits handle.id value →
          done.outcome = .error .overConstrained ∧ before.Restored after) := by
  have sound : (Engine.ofDepth (patience + 1) depth : Engine ℚ).Sound :=
    Engine.ofDepth_sound (patience + 1) depth
  have patient :
      0 < (Engine.ofDepth (patience + 1) depth : Engine ℚ).patience := by
    cases depth <;> exact Nat.succ_pos patience
  have quiet := assigns.reached.quiet sound handle.solver before assigns.found
  have coherent :=
    assigns.reached.coherent sound handle.solver before assigns.found
  have prompt : before.Prompt :=
    ⟨coherent, assigns.exactly, assigns.auto, quiet.dispatching⟩
  rcases assigns.news with ⟨former, live, news⟩
  have present := Solver.get?_of_variableAt live
  rcases run : (Edit.setValue handle (some value)).run ⟨before, []⟩ with
    ⟨result, draft⟩
  have applies := applies_of_setValue live quiet.dispatching run
  have adopted := World.getElem?_adopt_self draft assigns.found
  by_cases admits : before.Admits handle.id value
  · rcases applies.assigned prompt present news admits with
      ⟨moved, rfl, assigned⟩
    have steady := Task.edit_steady (.setValue handle (some value)) _ _ _ run
    have coheres := Task.edit_coheres (.setValue handle (some value)) _ _ _ run
    have unheardAfter := applies.unheard assigns.unheard
    have quietAfter := quiet.of_steady steady
    have performed :=
      Action.perform_of_unheard assigns.found run unheardAfter quietAfter
        (.inr patient)
    rcases step_of_yields
      (yields_setValue assigns.labelled performed style) with
      ⟨events, stepped⟩
    refine ⟨_, draft.solver, stepped, ?_, ?_, fun forbidden =>
      absurd admits forbidden⟩
    · rw [World.solvers_heard]
      exact adopted
    · intro _
      refine ⟨rfl, assigned, assigned.residual_apart, ?_⟩
      intro name named
      have exactlyAfter : draft.solver.settings.Exact := by
        rw [steady.settings]
        exact assigns.exactly
      apply exists_step_solve patient ?_ ?_ (coheres coherent) exactlyAfter
        assigned.satisfied unheardAfter quietAfter
      · rw [World.labels_heard]
        exact named
      · rw [World.solvers_heard]
        exact adopted
  · rcases applies.restored prompt present news admits with ⟨rfl, restored⟩
    have performed :=
      Action.perform_of_failing (.ofDepth (patience + 1) depth)
        assigns.found run
    rcases step_of_yields
      (yields_setValue assigns.labelled performed style) with
      ⟨events, stepped⟩
    exact ⟨_, draft.solver, stepped, adopted, fun admitted =>
      absurd admitted admits, fun _ => ⟨rfl, restored⟩⟩

/-- A world with a locked variable, which the other one has to follow. -/
def leadingWorld : World ℚ :=
  ((play (.ofDepth 9 3) .empty
    [.operation (.newSolver "s" true true (.literal (some 0)) 10),
      .operation (.addVariable "s" "x" none (.literal (some 1))),
      .operation (.addVariable "s" "y" none (.literal (some 2))),
      .operation (.addConstraint "s" (some "c")
        [(.label "x", .literal (some 1)), (.label "y", .literal (some 1))]
        (.literal (some 3))),
      .operation (.lock "y")]).getLast?.map Step.world).getD .empty

theorem assigns_leadingWorld {before : Solver ℚ}
    (found : leadingWorld.solvers[0]? = some before) :
    Assigns (.ofDepth 9 3) leadingWorld "y" ⟨0, 1⟩ before 4 ∧
      Assigns (.ofDepth 9 3) leadingWorld "x" ⟨0, 0⟩ before 5 := by
  have reached : Reached (.ofDepth 9 3) leadingWorld := .of_last _ _
  have suited : ∀ solver ∈ leadingWorld.solvers[0]?,
      (∀ contents ∈ solver.unknowns.values, contents.hook = none) ∧
        solver.settings.autoSolve = true ∧ solver.settings.tolerance = some 0 ∧
        solver.settings.refusesContradiction = true ∧
        (solver.variableAt ⟨0, 1⟩).toOption.map Variable.value = some 2 ∧
        (solver.variableAt ⟨0, 0⟩).toOption.map Variable.value = some 1 := by
        decide +kernel
  rcases suited before found with
    ⟨unheard, auto, tolerance, refuses, second, first⟩
  have news : ∀ {handle : VariableHandle} {value other : ℚ},
      (before.variableAt handle).toOption.map Variable.value = some value →
      other ≠ value →
        ∃ former, before.variableAt handle = .ok former ∧
          other ≠ former.value := by
    intro handle value other isValue different
    cases live : before.variableAt handle with
    | error failure =>
        rw [live] at isValue
        cases isValue
    | ok former =>
        rw [live] at isValue
        cases isValue
        exact ⟨former, rfl, different⟩
  constructor
  · exact ⟨reached, by
      decide +kernel, found, news second (by norm_num), unheard, auto,
      tolerance, refuses⟩
  · exact ⟨reached, by
      decide +kernel, found, news first (by norm_num), unheard, auto,
      tolerance, refuses⟩

theorem step_setValue_leadingWorld :
    ∃ before, leadingWorld.solvers[0]? = some before ∧
      (∃ done after, step (.ofDepth 9 3) leadingWorld
          (.operation (.setValue "y" (.literal (some 4)) .chained)) =
            some done ∧
        done.outcome = .ok .itself ∧ done.world.solvers[0]? = some after ∧
        before.Assigned after 1 4) ∧
      ∃ done after, step (.ofDepth 9 3) leadingWorld
          (.operation (.setValue "x" (.literal (some 5)) .chained)) =
            some done ∧
        done.outcome = .error .overConstrained ∧
        done.world.solvers[0]? = some after ∧ before.Restored after := by
  have isThere : leadingWorld.solvers[0]?.isSome = true := by decide +kernel
  have allowed : ∀ solver ∈ leadingWorld.solvers[0]?,
      ∀ constraint ∈ (solver.apart 1).values, constraint.HoldsAt fun id =>
      if id = 0 then -1 else 4 := by decide +kernel
  have opposed : ∀ solver ∈ leadingWorld.solvers[0]?,
      ∃ stated ∈ (solver.apart 0).values, ∃ pin ∈ (solver.apart 0).values,
        stated.terms.entries = [(0, 1), (1, 1)] ∧ stated.sum = 3 ∧
          pin.terms.entries = [(1, 1)] ∧ pin.sum = 2 := by decide +kernel
  rcases Option.isSome_iff_exists.mp isThere with ⟨before, found⟩
  rcases assigns_leadingWorld found with ⟨second, first⟩
  have admits : before.Admits 1 4 := ⟨_, rfl, allowed before found⟩
  have forbidden : ¬before.Admits 0 5 := by
    rintro ⟨values, isValue, holds⟩
    rcases opposed before found with
      ⟨stated, isStated, pin, isPin, terms, sum, pinTerms, pinSum⟩
    have statedHolds := holds stated isStated
    have pinHolds := holds pin isPin
    simp only [Constraint.HoldsAt, terms, sum, pinTerms, pinSum, List.map_cons,
      List.map_nil, List.sum_cons, List.sum_nil] at statedHolds pinHolds
    linarith
  rcases second.step_setValue .chained with
    ⟨done, after, stepped, left, taken, _⟩
  rcases first.step_setValue .chained with
    ⟨again, final, steppedAgain, leftAgain, _, refused⟩
  exact ⟨before, found,
    ⟨done, after, stepped, (taken admits).1, left, (taken admits).2.1⟩,
    ⟨again, final, steppedAgain, (refused forbidden).1, leftAgain,
      (refused forbidden).2⟩⟩

end Session

end LiveLinear
