import LiveLinear.Proofs.Solver.Work

namespace LiveLinear

/-! # Writing a solution

The four ways in which writing a solution can end. -/

variable {α : Type} [Scalar α]

namespace Solver

/-- What writing a solution makes of a solver. -/
inductive Writes (solver : Solver α) :
    Except (Failure α) (List VariableId) → Solver α → Prop
  /-- While hooks run, the solve is put off. -/
  | deferred (busy : solver.dispatching = true) :
      Writes solver (.ok []) { solver with resolvePending := true }
  /-- The constraints do not make a tableau. -/
  | unassembled {failure} (idle : solver.dispatching = false)
      (failed : solver.assemble = .error failure) :
      Writes solver (.error failure) { solver with resolvePending := false }
  | refused {tableau} (idle : solver.dispatching = false)
      (assembled : solver.assemble = .ok tableau)
      (contradiction : tableau.reduce.isOverConstrained = true)
      (refuses : solver.settings.refusesContradiction = true) :
      Writes solver (.error .overConstrained)
        { solver with resolvePending := false }
  | written {tableau} (idle : solver.dispatching = false)
      (assembled : solver.assemble = .ok tableau)
      (accepted : tableau.reduce.isOverConstrained = true →
        solver.settings.refusesContradiction = false) :
      Writes solver
        (.ok
          (solver.moved tableau.tolerance (tableau.reduce.solve solver.point)))
        { solver.storePoint (tableau.reduce.solve solver.point) with
          resolvePending := false }

namespace Writes

variable {solver after : Solver α}
  {result : Except (Failure α) (List VariableId)}

theorem resolvePending (writes : solver.Writes result after) :
    after.resolvePending = solver.dispatching := by
  cases writes with
  | deferred busy => exact busy.symm
  | unassembled idle _ => exact idle.symm
  | refused idle _ _ _ => exact idle.symm
  | written idle _ _ => exact idle.symm

theorem marks (writes : solver.Writes result after) :
    after.id = solver.id ∧ after.settings = solver.settings ∧
      after.dispatching = solver.dispatching ∧
      after.draining = solver.draining ∧ after.deferred = solver.deferred := by
  cases writes <;> exact ⟨rfl, rfl, rfl, rfl, rfl⟩

theorem idle_of_moved {moved : List VariableId}
    (writes : solver.Writes (.ok moved) after) (some : moved ≠ []) :
    solver.dispatching = false := by
  cases writes with
  | deferred _ => exact absurd rfl some
  | written idle _ _ => exact idle

end Writes

end Solver

namespace Edit

variable {before after : Draft α}

theorem reduction_cases {solver : Solver α}
    {result : Except (Failure α) (Tableau α solver.unknowns.size)}
    (yields : (reduction solver).Yields before result after) :
    after.solver = before.solver ∧ result = solver.assemble.map Tableau.reduce ∧
      ∃ notes, after.notes = notes ++ before.notes ∧
        ∀ note ∈ notes, note.concernsWork = false := by
  simp only [reduction, yields_note_bind, yields_ofOutcome_bind, yields_pure]
    at yields
  rcases yields with ⟨failure, failed, rfl, rfl⟩
    | ⟨tableau, assembled, rfl, rfl⟩
  · rw [failed]
    refine ⟨rfl, rfl, [_], rfl, ?_⟩
    simp [Note.concernsWork]
  · rw [assembled]
    refine ⟨rfl, rfl, [_, _], rfl, ?_⟩
    simp [Note.concernsWork, Tableau.reductionNote]

def WriteNotes (solver : Solver α) (notes : List (Note α)) : Prop :=
  (solver.dispatching = true ∧ notes = [.solveDeferred]) ∨
    (solver.dispatching = false ∧ ∀ note ∈ notes, note.concernsWork = false)

theorem writeSolution_cases {result : Except (Failure α) (List VariableId)}
    (yields : writeSolution.Yields before result after) :
    before.solver.Writes result after.solver ∧
      ∃ notes, after.notes = notes ++ before.notes ∧
        WriteNotes before.solver notes := by
  simp only [writeSolution, yields_current_bind] at yields
  split at yields
  · next busy =>
      simp only [yields_update_bind, yields_note_bind, yields_pure] at yields
      rcases yields with ⟨rfl, rfl⟩
      exact ⟨.deferred busy, [_], rfl, .inl ⟨busy, rfl⟩⟩
  · next notBusy =>
      have idle : before.solver.dispatching = false := by simpa using notBusy
      rw [yields_update_bind, yields_bind] at yields
      rcases yields with ⟨failure, failed, rfl⟩ | ⟨reduced, middle, made, rest⟩
      · rcases reduction_cases failed with
          ⟨isAfter, isFailure, notes, isNotes, unconcerned⟩
        refine ⟨?_, notes, isNotes, .inr ⟨idle, unconcerned⟩⟩
        rw [isAfter]
        cases assembled : before.solver.assemble with
        | error cause =>
            rw [assembled] at isFailure
            cases isFailure
            exact .unassembled idle assembled
        | ok tableau =>
            rw [assembled] at isFailure
            cases isFailure
      · rcases reduction_cases made with
          ⟨isMiddle, isReduced, notes, isNotes, unconcerned⟩
        cases assembled : before.solver.assemble with
        | error cause =>
            rw [assembled] at isReduced
            cases isReduced
        | ok tableau =>
            rw [assembled] at isReduced
            cases isReduced
            cases contradiction : tableau.reduce.isOverConstrained with
            | false =>
                simp only [contradiction, Bool.false_eq_true, if_false,
                  yields_update_bind, yields_note_bind, yields_pure] at rest
                rcases rest with ⟨rfl, rfl⟩
                refine ⟨.written idle assembled ?_, _ :: notes,
                  congrArg (List.cons _) isNotes, .inr ⟨idle, ?_⟩⟩
                · intro impossible
                  rw [contradiction] at impossible
                  cases impossible
                · simpa [Note.concernsWork] using unconcerned
            | true =>
                cases refuses : before.solver.settings.refusesContradiction with
                | true =>
                    simp only [contradiction, refuses, if_true,
                      yields_throw_bind] at rest
                    rcases rest with ⟨rfl, rfl⟩
                    rw [isMiddle]
                    exact ⟨.refused idle assembled contradiction refuses, notes,
                      isNotes, .inr ⟨idle, unconcerned⟩⟩
                | false =>
                    simp only [contradiction, refuses, Bool.false_eq_true,
                      if_true, if_false, yields_update_bind, yields_note_bind,
                      yields_pure] at rest
                    rcases rest with ⟨rfl, rfl⟩
                    refine ⟨.written idle assembled fun _ => refuses,
                      _ :: _ :: notes,
                      congrArg (List.cons _) (congrArg (List.cons _) isNotes),
                      .inr ⟨idle, ?_⟩⟩
                    simpa [Note.concernsWork] using unconcerned

/-- A pending solve is not needed to account for what writing leaves to be
done. -/
theorem writeSolution_accounts {result : Except (Failure α) (List VariableId)}
    (yields : writeSolution.Yields before result after) :
    ∃ notes, after.notes = notes ++ before.notes ∧
      Work.Accounts ⟨before.solver.deferred, false⟩ notes.reverse
        after.solver.work := by
  rcases writeSolution_cases yields with ⟨writes, notes, isNotes, concern⟩
  rcases writes.marks with ⟨_, _, _, _, deferred⟩
  refine ⟨notes, isNotes, ?_⟩
  rcases concern with ⟨busy, isDeferral⟩ | ⟨idle, unconcerned⟩
  · rw [isDeferral]
    constructor
    · simp [Solver.work, deferred, Note.taken?]
    · simp only [Solver.work, writes.resolvePending, busy]
      simp [Note.isSolveTaken, Note.isSolveDeferred]
  · apply Work.Accounts.of_sublist
    · simpa using unconcerned
    · simp [Solver.work, deferred]
    · intro pending
      simp only [Solver.work, writes.resolvePending, idle] at pending
      cases pending

theorem writeSolution_steady :
    Keeps Draft.Steady (writeSolution : Edit α _) := by
  intro before result after yields
  rcases writeSolution_cases yields with ⟨writes, _⟩
  rcases writes.marks with ⟨id, settings, dispatching, draining, deferred⟩
  rcases writeSolution_accounts yields with ⟨notes, isNotes, accounts⟩
  refine ⟨id, settings, dispatching, draining, ?_, notes, isNotes,
    accounts.of_idle _⟩
  intro idle
  refine ⟨deferred, fun pending => ?_⟩
  rw [writes.resolvePending, idle] at pending
  cases pending

theorem writeIfAuto_cases {result : Except (Failure α) (List VariableId)}
    (yields : writeIfAuto.Yields before result after) :
    (before.solver.settings.autoSolve = true ∧
      before.solver.Writes result after.solver) ∨
    (before.solver.settings.autoSolve = false ∧ result = .ok [] ∧
      after = before) := by
  simp only [writeIfAuto, yields_current_bind] at yields
  split at yields
  · next on => exact .inl ⟨on, (writeSolution_cases yields).1⟩
  · next off =>
      rcases yields_pure.mp yields with ⟨rfl, rfl⟩
      exact .inr ⟨by simpa using off, rfl, rfl⟩

theorem writes_of_writeIfAuto {result : Except (Failure α) (List VariableId)}
    (yields : writeIfAuto.Yields before result after)
    (auto : before.solver.settings.autoSolve = true) :
    before.solver.Writes result after.solver := by
  rcases writeIfAuto_cases yields with ⟨_, writes⟩ | ⟨off, _, _⟩
  · exact writes
  · cases auto.symm.trans off

end Edit

/-! ## Giving a variable a value -/

def Solver.holdAt (solver : Solver α) (id : VariableId) (value : α) :
    Solver α :=
  ((solver.storeValue id value).release id).pin id

namespace Solver.SameMarks

theorem holdAt (solver : Solver α) (id : VariableId) (value : α) :
    solver.SameMarks (solver.holdAt id value) :=
  ((storeValue solver id value).trans (release _ id)).trans (pin _ id)

end Solver.SameMarks

/-- Stop holding a variable that had the contents `former`, after solving has
ended with `outcome`. -/
def Solver.letGo (solver : Solver α) (id : VariableId) (former : Variable α)
    (outcome : Except (Failure α) (List VariableId)) : Solver α :=
  let undone :=
    match outcome with
    | .error .overConstrained =>
        let released := (solver.storeValue id former.value).release id
        if former.lock.isSome then released.pin id else released
    | _ => solver
  if former.lock.isSome then undone else undone.release id

theorem Solver.SameMarks.letGo (solver : Solver α) (id : VariableId)
    (former : Variable α) (outcome : Except (Failure α) (List VariableId)) :
    solver.SameMarks (solver.letGo id former outcome) := by
  have released :
      solver.SameMarks ((solver.storeValue id former.value).release id) :=
    (storeValue solver id former.value).trans (release _ id)
  have cleaned : ∀ undone : Solver α, solver.SameMarks undone →
      solver.SameMarks (if former.lock.isSome then undone
        else undone.release id) := by
    intro undone same
    split
    · exact same
    · exact same.trans (release undone id)
  apply cleaned
  split
  · dsimp only
    split
    · exact released.trans (pin _ id)
    · exact released
  · exact refl solver

/-- What giving a variable a value makes of a draft. -/
inductive Draft.Applies (before : Draft α) (id : VariableId) (value : α) :
    Except (Failure α) (List VariableId) → Draft α → Prop
  | absent (absent : before.solver.unknowns.get? id = none) :
      Applies before id value (.ok []) before
  /-- The tolerance is missing. -/
  | unread {former failure}
      (found : before.solver.unknowns.get? id = some former)
      (unread : before.solver.settings.toleranceFor .atMost = .error failure) :
      Applies before id value (.error failure) before
  | noNews {former tolerance}
      (found : before.solver.unknowns.get? id = some former)
      (given : before.solver.settings.toleranceFor .atMost = .ok tolerance)
      (small : Scalar.negligible tolerance (value - former.value) = true) :
      Applies before id value (.ok []) before
  /-- The variable is held while its neighbours are solved for. -/
  | held {former tolerance outcome middle}
      (found : before.solver.unknowns.get? id = some former)
      (given : before.solver.settings.toleranceFor .atMost = .ok tolerance)
      (news : Scalar.negligible tolerance (value - former.value) = false)
      (written : Edit.writeIfAuto.Yields
        { before with solver := before.solver.holdAt id value } outcome
          middle) :
      Applies before id value
        (outcome.map fun moved =>
          moved.filter (fun other => other ≠ id) ++ [id])
        { middle with solver := middle.solver.letGo id former outcome }

namespace Edit

variable {before after : Draft α}

theorem applyValue_cases {id : VariableId} {value : α}
    {result : Except (Failure α) (List VariableId)}
    (yields : (applyValue id value).Yields before result after) :
    before.Applies id value result after := by
  simp only [applyValue, yields_current_bind] at yields
  split at yields
  · next absent =>
      rcases yields_pure.mp yields with ⟨rfl, rfl⟩
      exact .absent absent
  · next former found =>
      rcases yields_ofOutcome_bind.mp yields with
        ⟨failure, unread, rfl, rfl⟩ | ⟨tolerance, given, rest⟩
      · exact .unread found unread
      · split at rest
        · next small =>
            rcases yields_pure.mp rest with ⟨rfl, rfl⟩
            exact .noNews found given small
        · next news =>
            rw [yields_update_bind, yields_bind_pure] at rest
            rcases rest with ⟨outcome, ended, rfl⟩
            rcases yields_ensuring.mp ended with ⟨undone, undoing, rfl⟩
            rcases yields_undoing.mp undoing with ⟨middle, written, rfl⟩
            have applies : before.Applies id value _ _ :=
              .held found given (by simpa using news) written
            rcases outcome with _ | _
            · next failure => cases failure <;> exact applies
            · exact applies

theorem writeIfAuto_steady : Keeps Draft.Steady (writeIfAuto : Edit α _) := by
  refine Draft.Steady.lasting.bind (Draft.Steady.lasting.current)
    fun solver => ?_
  split
  · exact writeSolution_steady
  · exact Draft.Steady.lasting.pure []

theorem applyValue_steady (id : VariableId) (value : α) :
    Keeps Draft.Steady (applyValue id value) := by
  intro before result after yields
  cases applyValue_cases yields with
  | absent _ | unread _ _ | noNews _ _ _ => exact .refl _
  | @held former _ outcome middle _ _ _ written =>
      have holding :=
        Draft.Steady.of_sameMarks before (.holdAt before.solver id value)
      have lettingGo :=
        Draft.Steady.of_sameMarks middle
          (.letGo middle.solver id former outcome)
      exact .trans _ _ _
        (.trans _ _ _ holding (writeIfAuto_steady _ _ _ written)) lettingGo

end Edit

end LiveLinear
