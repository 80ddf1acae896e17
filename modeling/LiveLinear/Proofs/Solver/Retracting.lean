import LiveLinear.Proofs.Solver.Notifying

namespace LiveLinear

/-! # Taking steps back

With exact arithmetic and tolerance zero, a solver that solves by itself keeps
its constraints satisfied, also where a solve of its own is refused: the edit
that has asked for it takes its steps back. The one exception is a constraint
that is added while hooks run. It is stored at once, and the solve that might
refuse it is put off. -/

structure Solver.Strict (solver : Solver ℚ) : Prop where
  coherent : solver.Coherent
  exactly : solver.settings.Exact
  auto : solver.settings.autoSolve = true

namespace Solver

variable {solver before after : Solver ℚ} {id : VariableId}
  {former : Variable ℚ}

theorem Strict.of_settings (strict : before.Strict) (coherent : after.Coherent)
    (settings : after.settings = before.settings) : after.Strict := by
  refine ⟨coherent, ?_, ?_⟩
  · rw [settings]
    exact strict.exactly
  · rw [settings]
    exact strict.auto

theorem Strict.mark (strict : solver.Strict)
    {dispatching draining pending : Bool} {deferred : List (VariableId × ℚ)} :
    { solver with
      dispatching, draining, deferred, resolvePending := pending }.Strict :=
  ⟨strict.coherent, strict.exactly, strict.auto⟩

theorem strict_empty (id : SolverId) {settings : Settings ℚ}
    (exactly : settings.Exact) (auto : settings.autoSolve = true) :
    (Solver.empty id settings).Strict :=
  ⟨coherent_empty id settings, exactly, auto⟩

theorem satisfied_empty (id : SolverId) (settings : Settings ℚ) :
    (Solver.empty id settings).Satisfied := by
  intro constraint impossible
  cases impossible

/-- The constraint that holds a variable where it is, is satisfied. -/
theorem Satisfied.pin (satisfied : solver.Satisfied)
    (coherent : solver.Coherent) (id : VariableId) :
    (solver.pin id).Satisfied := by
  cases found : solver.unknowns.get? id with
  | none =>
      rw [Solver.pin, found]
      exact satisfied
  | some former =>
      have constraints : (solver.pin id).constraints.values =
          solver.constraints.values ++ [.pinning id former.value] := by
        rw [pin_eq found]
        exact Table.values_put_of_not_mem coherent.fresh_constraint _
      have values : (solver.pin id).valueOf = solver.valueOf :=
        funext (valueOf_pin solver id)
      have held : solver.valueOf id = former.value := by
        rw [valueOf, found]
        rfl
      intro constraint member
      rw [residual_eq_zero_iff, values]
      rw [constraints, List.mem_append, List.mem_singleton] at member
      rcases member with old | rfl
      · exact residual_eq_zero_iff.mp (satisfied constraint old)
      · exact Constraint.holdsAt_pinning.mpr held

theorem Coherent.recount (coherent : solver.Coherent) {counter : Nat}
    (later : solver.nextConstraint ≤ counter) :
    { solver with nextConstraint := counter }.Coherent :=
  { coherent with
    constraintsBelow := fun id member =>
      lt_of_lt_of_le (coherent.constraintsBelow id member)
        (Int.ofNat_le.mpr later) }

theorem Satisfied.letGo (satisfied : solver.Satisfied)
    (coherent : solver.Coherent) (found : solver.unknowns.get? id = some former)
    (value : ℚ) :
    ((solver.holdAt id value).letGo id former
      (.error .overConstrained)).Satisfied := by
  rw [letGo_overConstrained coherent found]
  split
  · have released : (solver.release id).Satisfied :=
      satisfied.relax coherent (.release solver id)
    have recounted : { solver.release id with
        nextConstraint := solver.nextConstraint + 1 }.Satisfied := released
    have later :
        (solver.release id).nextConstraint ≤ solver.nextConstraint + 1 := by
      rw [release_eq coherent]
      exact Nat.le_succ _
    exact recounted.pin ((coherent.release id).recount later) id
  · exact satisfied

end Solver

/-! ## Attempts to solve -/

/-- How an attempt of a strict solver to solve ends. A solution has been written
only if its constraints are satisfied. -/
inductive Draft.Attempts (before : Draft ℚ) :
    Except (Failure ℚ) (List VariableId) → Draft ℚ → Prop
  | deferred {after} (busy : before.solver.dispatching = true)
      (unsolved : before.Unsolved after)
      (same : after.solver = { before.solver with resolvePending := true }) :
      Attempts before (.ok []) after
  | refused {after} (idle : before.solver.dispatching = false)
      (unsolved : before.Unsolved after)
      (same : after.solver = before.solver.unpended) :
      Attempts before (.error .overConstrained) after
  | written {after moved} (idle : before.solver.dispatching = false)
      (noted : ∃ notes, after.notes = notes ++ before.notes)
      (satisfied : after.solver.Satisfied) : Attempts before (.ok moved) after

def Draft.Upholds (before after : Draft ℚ) : Prop :=
  before.solver.Strict → after.solver.Strict ∧
    ∃ notes, after.notes = notes ++ before.notes ∧
      (notes.any Note.isSolved = true ∨ before.solver.Satisfied →
        after.solver.Satisfied)

namespace Draft

variable {before middle after : Draft ℚ}
  {result : Except (Failure ℚ) (List VariableId)}

theorem Upholds.lasting : Edit.Lasting Upholds := by
  refine ⟨fun draft strict => ⟨strict, [], rfl, ?_⟩, ?_⟩
  · rintro (impossible | satisfied)
    · cases impossible
    · exact satisfied
  · intro first second third left right strict
    rcases left strict with ⟨between, earlier, isSecond, upheld⟩
    rcases right between with ⟨last, later, isThird, upheldToo⟩
    refine ⟨last, later ++ earlier, ?_, ?_⟩
    · rw [isThird, isSecond, List.append_assoc]
    · rw [List.any_append, Bool.or_eq_true]
      rintro ((solved | solved) | satisfied)
      · exact upheldToo (.inl solved)
      · exact upheldToo (.inr (upheld (.inl solved)))
      · exact upheldToo (.inr (upheld (.inr satisfied)))

theorem Upholds.of_unsolved (unsolved : before.Unsolved after)
    (strict : before.solver.Strict → after.solver.Strict)
    (satisfied : before.solver.Strict → before.solver.Satisfied →
      after.solver.Satisfied) :
    before.Upholds after := by
  intro isStrict
  rcases unsolved with ⟨notes, isNotes, unsolved⟩
  refine ⟨strict isStrict, notes, isNotes, ?_⟩
  rintro (solved | held)
  · cases unsolved.symm.trans solved
  · exact satisfied isStrict held

theorem Upholds.of_relaxes {solver : Solver ℚ}
    (coherent : before.solver.Coherent → solver.Coherent)
    (relaxes : before.solver.Coherent → before.solver.Relaxes solver) :
    before.Upholds { before with solver } :=
  .of_unsolved ⟨[], rfl, rfl⟩
    (fun strict => strict.of_settings (coherent strict.coherent)
      (relaxes strict.coherent).settings)
    fun strict satisfied =>
    satisfied.relax strict.coherent (relaxes strict.coherent)

theorem Attempts.upholds (attempts : before.Attempts result after)
    (strict : before.solver.Strict → after.solver.Strict) :
    before.Upholds after := by
  cases attempts with
  | deferred _ unsolved same | refused _ unsolved same =>
      refine .of_unsolved unsolved strict fun _ satisfied => ?_
      rw [same]
      exact satisfied
  | written _ noted satisfied =>
      rcases noted with ⟨notes, isNotes⟩
      exact fun isStrict =>
        ⟨strict isStrict, notes, isNotes, fun _ => satisfied⟩

end Draft

namespace Edit

open Draft (Unsolved Upholds)
open Draft.Upholds (lasting)

variable {β : Type} {before after : Draft ℚ}
  {result : Except (Failure ℚ) (List VariableId)}

/-- A solve that fails has written nothing. -/
theorem writeSolution_unsolved {α : Type} [Scalar α] {before after : Draft α}
    {failure : Failure α}
    (yields : writeSolution.Yields before (.error failure) after) :
    before.Unsolved after := by
  simp only [writeSolution, yields_current_bind] at yields
  split at yields
  · simp only [yields_update_bind, yields_note_bind, yields_pure] at yields
    cases yields.1
  · rw [yields_update_bind, yields_bind] at yields
    rcases yields with ⟨_, failed, _⟩ | ⟨reduced, middle, made, rest⟩
    · have unsolved := reduction_unsolved _ _ _ _ failed
      exact unsolved
    · have unsolved := reduction_unsolved _ _ _ _ made
      cases contradiction : reduced.isOverConstrained with
      | false =>
          simp only [contradiction, Bool.false_eq_true, if_false,
            yields_update_bind, yields_note_bind, yields_pure] at rest
          cases rest.1
      | true =>
          cases refuses : before.solver.settings.refusesContradiction with
          | true =>
              simp only [contradiction, refuses, if_true, yields_throw_bind]
                at rest
              rw [rest.2]
              exact unsolved
          | false =>
              simp only [contradiction, refuses, Bool.false_eq_true, if_true,
                if_false, yields_update_bind, yields_note_bind, yields_pure]
                at rest
              cases rest.1

theorem writeSolution_attempts (strict : before.solver.Strict)
    (yields : writeSolution.Yields before result after) :
    before.Attempts result after := by
  rcases writeSolution_cases yields with ⟨writes, notes, isNotes, concerns⟩
  generalize isLater : after.solver = later at writes
  cases writes with
  | deferred busy =>
      refine .deferred busy ⟨notes, isNotes, ?_⟩ isLater
      rcases concerns with ⟨_, isDeferral⟩ | ⟨idle, _⟩
      · rw [isDeferral]
        rfl
      · cases busy.symm.trans idle
  | unassembled _ failed =>
      rcases Solver.exists_assemble strict.exactly.tolerance with
        ⟨tableau, assembled, _⟩
      cases assembled.symm.trans failed
  | refused idle _ _ _ =>
      exact .refused idle (writeSolution_unsolved yields) isLater
  | written idle assembled accepted =>
      refine .written idle ⟨notes, isNotes⟩ ?_
      rw [isLater]
      exact Solver.satisfied_of_written strict.coherent strict.exactly assembled
        accepted

theorem writeIfAuto_attempts (strict : before.solver.Strict)
    (yields : writeIfAuto.Yields before result after) :
    before.Attempts result after := by
  simp only [writeIfAuto, yields_current_bind, strict.auto, if_true] at yields
  exact writeSolution_attempts strict yields

theorem strict_of_steady {edit : Edit ℚ β} {outcome : Except (Failure ℚ) β}
    (coheres : Keeps Draft.Coheres edit) (steady : Keeps Draft.Steady edit)
    (yields : edit.Yields before outcome after)
    (strict : before.solver.Strict) :
    after.solver.Strict :=
  strict.of_settings (coheres _ _ _ yields strict.coherent)
    (steady _ _ _ yields).settings

theorem writeSolution_upholds : Keeps Upholds writeSolution := by
  intro before result after yields strict
  refine (writeSolution_attempts strict yields).upholds ?_ strict
  exact strict_of_steady (Task.edit_coheres .solve) writeSolution_steady yields

theorem writeIfAuto_upholds : Keeps Upholds writeIfAuto := by
  intro before result after yields strict
  refine (writeIfAuto_attempts strict yields).upholds ?_ strict
  exact strict_of_steady writeIfAuto_coheres writeIfAuto_steady yields

theorem upholds_update {change : Solver ℚ → Solver ℚ}
    (coherent : ∀ solver : Solver ℚ, solver.Coherent → (change solver).Coherent)
    (relaxes : ∀ solver : Solver ℚ, solver.Coherent →
      solver.Relaxes (change solver)) :
    Keeps Upholds (update change) :=
  keeps_update fun _ => .of_relaxes (coherent _) (relaxes _)

theorem reduction_upholds (solver : Solver ℚ) :
    Keeps Upholds (reduction solver) := by
  intro before result after yields
  have same := (reduction_cases yields).1
  refine .of_unsolved (reduction_unsolved solver _ _ _ yields)
    (fun strict => ?_) fun _ satisfied => ?_
  · rw [same]
    exact strict
  · rw [same]
    exact satisfied

theorem upholds_still {edit : Edit ℚ β} (kept : Keeps Upholds edit) :
    Keeps Upholds edit.still :=
  lasting.bind kept fun _ => lasting.pure _

/-- Outside of rounds, a value is given or the solver is as it was. -/
theorem applyValue_upholds {id : VariableId} {value : ℚ}
    (idle : before.solver.dispatching = false)
    (yields : (applyValue id value).Yields before result after) :
    before.Upholds after := by
  intro strict
  have isStrict : after.solver.Strict :=
    strict.of_settings
      ((applyValue_evolves id value _ _ _ yields).coherent strict.coherent)
      (applyValue_steady id value _ _ _ yields).settings
  cases applyValue_cases yields with
  | absent _ | unread _ _ | noNews _ _ _ => exact lasting.refl before strict
  | @held former tolerance outcome middle found given news written =>
      have same := Solver.SameMarks.holdAt before.solver id value
      have heldStrict : (before.solver.holdAt id value).Strict :=
        strict.of_settings (Solver.coherent_holdAt strict.coherent id value)
          same.settings
      cases writeIfAuto_attempts heldStrict written with
      | deferred busy _ _ => cases busy.symm.trans (same.dispatching.trans idle)
      | refused _ unsolved isMiddle =>
          refine Upholds.of_unsolved unsolved (fun _ => isStrict)
            (fun _ satisfied => ?_) strict
          have sameCoherent : before.solver.unpended.Coherent := strict.coherent
          have sameFound :
            before.solver.unpended.unknowns.get? id = some former := found
          have isSatisfied : before.solver.unpended.Satisfied := satisfied
          dsimp only
          rw [isMiddle, Solver.unpended_holdAt strict.coherent found]
          exact isSatisfied.letGo sameCoherent sameFound value
      | written _ noted satisfied =>
          rcases noted with ⟨notes, isNotes⟩
          refine ⟨isStrict, notes, isNotes, fun _ => ?_⟩
          have coherent := writeIfAuto_coheres _ _ _ written heldStrict.coherent
          dsimp only [Solver.letGo]
          split
          · exact satisfied
          · exact satisfied.relax coherent (.release middle.solver id)

theorem setValue_upholds (handle : VariableHandle) (value : Option ℚ) :
    Keeps Upholds (setValue handle value) := by
  refine lasting.bind (lasting.check _) fun id => ?_
  refine lasting.bind (lasting.ofOutcome _) fun number => ?_
  intro before result after yields
  rw [yields_current_bind] at yields
  split at yields
  · simp only [yields_update_bind, yields_note_bind, yields_pure] at yields
    rw [yields.2]
    exact .of_unsolved ⟨[_], rfl, rfl⟩ (fun strict => strict.mark)
      fun _ satisfied => satisfied
  · next notBusy => exact applyValue_upholds (by simpa using notBusy) yields

theorem lock_upholds (handle : VariableHandle) :
    Keeps Upholds (lock handle : Edit ℚ _) := by
  refine lasting.bind (lasting.check _) fun contents => ?_
  split
  · exact lasting.pure []
  · refine lasting.bind (keeps_update fun draft => ?_) fun _ =>
      lasting.undoing (fun draft => ?_) writeIfAuto_upholds
    · exact .of_unsolved ⟨[], rfl, rfl⟩
        (fun strict => strict.of_settings (strict.coherent.pin handle.id)
          (Solver.SameMarks.pin draft.solver handle.id).settings)
        fun strict satisfied => satisfied.pin strict.coherent handle.id
    · exact .of_relaxes (fun coherent => coherent.release handle.id)
        fun _ => .release draft.solver handle.id

/-- A constraint that is refused is erased. While hooks run, it may stay
unchecked. -/
theorem addConstraint_upholds {terms : List (Argument × Option ℚ)}
    {total : Option ℚ}
    (checked : before.solver.dispatching = true → ∀ moved, result ≠ .ok moved)
    (yields : (Task.addConstraint terms total).edit.Yields before result
      after) :
    before.Upholds after := by
  intro strict
  have isStrict : after.solver.Strict :=
    strict_of_steady (Task.edit_coheres _) (Task.edit_steady _) yields strict
  rw [Task.edit_addConstraint, yields_ofOutcome_bind] at yields
  rcases yields with ⟨failure, _, rfl, rfl⟩ | ⟨sum, _, checking⟩
  · exact lasting.refl _ strict
  rcases yields_check_bind.mp checking with
    ⟨failure, _, rfl, rfl⟩ | ⟨stored, isStored, rest⟩
  · exact lasting.refl _ strict
  simp only [yields_current_bind, yields_update_bind, yields_undoing] at rest
  rcases rest with ⟨middle, written, isAfter⟩
  have inserted :
      (before.solver.insertConstraint
        { terms := stored, sum, origin := .stated }).Strict :=
    ⟨strict.coherent.insertConstraint (checkTerms_over isStored sum .stated),
      strict.exactly, strict.auto⟩
  have attempts : Draft.Attempts ⟨_, before.notes⟩ result middle :=
    writeIfAuto_attempts inserted written
  cases attempts with
  | deferred busy _ _ => exact absurd rfl (checked busy [])
  | refused _ unsolved isMiddle =>
      subst isAfter
      refine Upholds.of_unsolved unsolved (fun _ => isStrict)
        (fun _ satisfied => ?_) strict
      have erased := Table.erase_put strict.coherent.fresh_constraint
        ({ terms := stored, sum, origin := .stated } : Constraint ℚ)
      simp only [isMiddle, Solver.unpended, erased]
      exact satisfied
  | written _ noted satisfied =>
      subst isAfter
      rcases noted with ⟨notes, isNotes⟩
      exact ⟨isStrict, notes, isNotes, fun _ => satisfied⟩

end Edit

/-! ## Tasks -/

/-- Whether a task changes no constraint that it has not added, and deletes no
variable. -/
def Task.isRevocable : Task α → Bool
  | .deleteVariable _ | .setTerm _ _ _ | .addTerm _ _ _ | .removeTerm _ _
      | .setSum _ _ => false
  | .solve | .addVariable _ _ | .setValue _ _ | .lock _ | .unlock _
      | .observe _ _ | .forget _ _ | .addConstraint _ _ | .deleteConstraint _
      | .isOverConstrained | .isUnderConstrained | .freeVariables => true

/-- Whether a task adds a constraint. -/
def Task.adds : Task α → Bool
  | .addConstraint _ _ => true
  | .solve | .addVariable _ _ | .setValue _ _ | .lock _ | .unlock _
      | .deleteVariable _ | .observe _ _ | .forget _ _ | .setTerm _ _ _
      | .addTerm _ _ _ | .removeTerm _ _ | .setSum _ _ | .deleteConstraint _
      | .isOverConstrained | .isUnderConstrained | .freeVariables => false

open Edit in
open Draft.Upholds (lasting) in
/-- Every task that can be taken back leaves the constraints satisfied if it has
found them so, unless it adds a constraint while hooks run. -/
theorem Task.upholds {task : Task ℚ} {before after : Draft ℚ}
    {result : Except (Failure ℚ) (List VariableId)}
    (revocable : task.isRevocable = true)
    (checked : task.adds = true → before.solver.dispatching = true →
      ∀ moved, result ≠ .ok moved)
    (yields : task.edit.Yields before result after) : before.Upholds after := by
  cases task with
  | solve => exact writeSolution_upholds _ _ _ yields
  | addVariable name value =>
      refine upholds_still (lasting.bind (lasting.ofOutcome _) fun value => ?_)
        _ _ _ yields
      refine lasting.bind lasting.current fun _ => lasting.bind ?_ fun _ =>
        lasting.pure _
      exact upholds_update
        (fun _ coherent => coherent.insertVariable name value) fun _ coherent =>
        .insertVariable coherent name value
  | setValue handle value => exact setValue_upholds handle value _ _ _ yields
  | lock handle => exact lock_upholds handle _ _ _ yields
  | unlock handle =>
      exact upholds_still (lasting.bind (lasting.check _) fun _ =>
        upholds_update (fun _ coherent => coherent.release handle.id)
          fun solver _ => .release solver handle.id) _ _ _ yields
  | observe handle hook =>
      exact upholds_still (lasting.bind (lasting.check _) fun _ =>
        upholds_update (fun _ coherent => coherent.setHook handle.id hook)
          fun solver _ => .setHook solver handle.id hook) _ _ _ yields
  | forget id hook =>
      refine upholds_still (upholds_update ?_ ?_) _ _ _ yields
      · intro solver coherent
        split
        · split
          · exact coherent.setHook id none
          · exact coherent
        · exact coherent
      · intro solver _
        split
        · split
          · exact .setHook solver id none
          · exact .refl solver
        · exact .refl solver
  | addConstraint terms total =>
      exact addConstraint_upholds (checked rfl) yields
  | deleteConstraint handle =>
      exact upholds_still (lasting.bind (lasting.check _) fun _ =>
        upholds_update (fun _ coherent => coherent.eraseConstraint handle.id)
          fun solver _ => .eraseConstraint solver handle.id) _ _ _ yields
  | isOverConstrained | isUnderConstrained | freeVariables =>
      exact upholds_still (lasting.bind lasting.current fun solver =>
        lasting.bind (reduction_upholds solver) fun _ => lasting.pure _) _ _
          _ yields
  | deleteVariable _ | setTerm _ _ _ | addTerm _ _ _ | removeTerm _ _
      | setSum _ _ =>
      cases revocable

theorem Solver.upholds_of_nextDeferred {solver : Solver ℚ}
    {work : Edit ℚ (List VariableId)}
    {draft : Draft ℚ} {result : Except (Failure ℚ) (List VariableId)}
    (idle : solver.dispatching = false) (next : solver.nextDeferred = some work)
    (yields : work.Yields ⟨solver, []⟩ result draft) :
    Draft.Upholds ⟨solver, []⟩ draft := by
  rcases nextDeferred_cases next with
    ⟨target, value, rest, _, rfl⟩ | ⟨_, _, rfl⟩
  · simp only [Edit.takeValue, Edit.yields_update_bind,
      Edit.yields_note_bind] at yields
    refine Draft.Upholds.lasting.trans _ _ _ ?_
      (Edit.applyValue_upholds idle yields)
    exact .of_unsolved ⟨[_], rfl, rfl⟩ (fun strict => strict.mark)
      fun _ satisfied => satisfied
  · rw [Edit.takeSolve, Edit.yields_note_bind] at yields
    refine Draft.Upholds.lasting.trans _ _ _ ?_
      (Edit.writeSolution_upholds _ _ _ yields)
    exact .of_unsolved ⟨[_], rfl, rfl⟩ (fun strict => strict)
      fun _ satisfied => satisfied

end LiveLinear
