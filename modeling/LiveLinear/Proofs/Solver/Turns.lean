import LiveLinear.Proofs.Solver.Waiting

namespace LiveLinear

/-! # The turns of a solver

How a solver goes on while its hooks are called and its deferred work is taken
up, as long as none of that fails: work is served in the order in which it was
asked for, and no solve that was asked for is lost. -/

variable {α : Type}

/-! ## Solves that are carried out -/

/-- The notes of a solve from its start to its end, with or without a
contradiction. -/
inductive Note.Solution : List (Note α) → Prop
  | consistent (rows columns height width rank count changed : Nat) :
      Solution [.assembled rows columns, .reduced height width rank,
        .solved count changed]
  | contradictory (rows columns height width rank count changed : Nat) :
      Solution [.assembled rows columns, .reduced height width rank,
        .contradictionIgnored, .solved count changed]

/-- Whether notes contain those of a whole solve. -/
def Note.Solves (notes : List (Note α)) : Prop :=
  ∃ solution, Note.Solution solution ∧ solution <:+: notes

namespace Note

variable {notes : List (Note α)}

theorem Solution.solves (solution : Note.Solution notes) : Note.Solves notes :=
  ⟨notes, solution, List.infix_refl notes⟩

theorem Solution.unconcerned (solution : Note.Solution notes) :
    ∀ note ∈ notes, note.concernsWork = false := by
  cases solution <;> simp [Note.concernsWork]

theorem Solves.append_left (solves : Note.Solves notes)
    (earlier : List (Note α)) :
    Note.Solves (earlier ++ notes) := by
  rcases solves with ⟨solution, isSolution, inNotes⟩
  exact ⟨solution, isSolution,
    inNotes.trans (List.suffix_append earlier notes).isInfix⟩

theorem Solves.append_right (solves : Note.Solves notes)
    (later : List (Note α)) :
    Note.Solves (notes ++ later) := by
  rcases solves with ⟨solution, isSolution, inNotes⟩
  exact ⟨solution, isSolution,
    inNotes.trans (List.prefix_append notes later).isInfix⟩

end Note

/-! ## Serving work -/

/-- Between two moments, work has been served: values in the order in which they
were queued, solves only when the queue was empty, and each solve that was asked
for is pending or has been carried out since. -/
structure Work.Serves (before : Work α) (notes : List (Note α))
    (after : Work α) : Prop where
  values : before.values ++ notes.filterMap Note.queued? =
    notes.filterMap Note.taken? ++ after.values
  solves (earlier later : List (Note α))
    (taken : notes = earlier ++ .solveTaken :: later) :
    before.values ++ earlier.filterMap Note.queued? = earlier.filterMap
      Note.taken?
  pending : before.solve = true → after.solve = true ∨ Note.Solves notes
  deferred (earlier later : List (Note α))
    (asked : notes = earlier ++ .solveDeferred :: later) :
    after.solve = true ∨ Note.Solves later

private theorem split_of_append_eq {β : Type}
    {first second earlier later : List β} {middle : β}
    (equal : first ++ second = earlier ++ middle :: later) :
    (∃ rest, first = earlier ++ middle :: rest ∧ later = rest ++ second) ∨
      ∃ start, earlier = first ++ start ∧
        second = start ++ middle :: later := by
  rcases List.append_eq_append_iff.mp equal with ⟨start, isEarlier, isSecond⟩ |
    ⟨rest, isFirst, isLater⟩
  · exact .inr ⟨start, isEarlier, isSecond⟩
  · cases rest with
    | nil =>
        rw [List.append_nil] at isFirst
        exact .inr ⟨[], by rw [isFirst, List.append_nil], isLater.symm⟩
    | cons other rest =>
        cases isLater
        exact .inl ⟨rest, isFirst, rfl⟩

namespace Work.Serves

variable {before middle after : Work α} {notes earlier later : List (Note α)}

theorem trans (first : before.Serves earlier middle)
    (second : middle.Serves later after) :
    before.Serves (earlier ++ later) after := by
  constructor
  · rw [List.filterMap_append, List.filterMap_append, ← List.append_assoc,
      first.values, List.append_assoc, second.values, List.append_assoc]
  · intro start rest taken
    rcases split_of_append_eq taken with ⟨between, inFirst, _⟩
      | ⟨between, rfl, inSecond⟩
    · exact first.solves start between inFirst
    · have served := second.solves between rest inSecond
      rw [List.filterMap_append, List.filterMap_append, ← List.append_assoc,
        first.values, List.append_assoc, served]
  · intro pending
    rcases first.pending pending with still | solved
    · exact (second.pending still).imp_right fun solved =>
        solved.append_left earlier
    · exact .inr (solved.append_right later)
  · intro start rest asked
    rcases split_of_append_eq asked with ⟨between, inFirst, rfl⟩
      | ⟨between, _, inSecond⟩
    · rcases first.deferred start between inFirst with still | solved
      · exact (second.pending still).imp_right fun solved =>
          solved.append_left between
      · exact .inr (solved.append_right later)
    · exact second.deferred between rest inSecond

theorem of_unconcerned (unconcerned : ∀ note ∈ notes, note.concernsWork = false)
    (values : after.values = before.values)
    (pending : before.solve = true → after.solve = true ∨ Note.Solves notes) :
    before.Serves notes after := by
  have waits : before.Defers notes before := .of_unconcerned unconcerned
  have untaken : notes.filterMap Note.taken? = [] :=
    List.filterMap_eq_nil_iff.mpr fun note member =>
      (waits.untaken note member).1
  constructor
  · rw [← waits.values, untaken, List.nil_append, values]
  · rintro start rest rfl
    cases unconcerned .solveTaken (by simp)
  · exact pending
  · rintro start rest rfl
    cases unconcerned .solveDeferred (by simp)

theorem refl (work : Work α) : work.Serves [] work :=
  of_unconcerned (by simp) rfl .inl

theorem of_defers (defers : before.Defers notes after) :
    before.Serves notes after := by
  have untaken : notes.filterMap Note.taken? = [] :=
    List.filterMap_eq_nil_iff.mpr fun note member =>
      (defers.untaken note member).1
  constructor
  · rw [untaken, List.nil_append, defers.values]
  · rintro start rest rfl
    cases (defers.untaken .solveTaken (by simp)).2
  · intro pending
    left
    rw [defers.solve, pending, Bool.true_or]
  · rintro start rest rfl
    left
    rw [defers.solve]
    simp [Note.isSolveDeferred]

theorem take (id : VariableId) (value : α) (rest : List (VariableId × α))
    (solve : Bool) :
    Serves ⟨(id, value) :: rest, solve⟩ [.valueTaken id value]
      ⟨rest, solve⟩ := by
  constructor
  · simp [Note.queued?, Note.taken?]
  · intro start later taken
    have member : Note.solveTaken ∈ [Note.valueTaken id value] := by
      simp [taken]
    cases List.mem_singleton.mp member
  · exact .inl
  · intro start later asked
    have member : Note.solveDeferred ∈ [Note.valueTaken id value] := by
      simp [asked]
    cases List.mem_singleton.mp member

theorem takeSolve : Serves (α := α) ⟨[], true⟩ [.solveTaken] ⟨[], true⟩ := by
  constructor
  · rfl
  · intro start later taken
    cases start with
    | nil => rfl
    | cons first others =>
        have length := congrArg List.length taken
        simp at length
  · exact .inl
  · intro start later asked
    have member : (Note.solveDeferred : Note α) ∈ [Note.solveTaken] := by
      simp [asked]
    cases List.mem_singleton.mp member

end Work.Serves

/-! ## Turns -/

variable [Scalar α]

namespace Solver

/-- One turn of a solver, with the notes that it makes. -/
inductive Turn (solver : Solver α) : List (Note α) → Solver α → Prop
  /-- Hooks begin or cease to be called, deferred work begins or ceases to be
  taken up, or a hook changes a setting. -/
  | marked (settings : Settings α) (dispatching draining : Bool) :
      Turn solver [] { solver with settings, dispatching, draining }
  /-- A hook asks the solver for something, whether or not it gets it. -/
  | asked {task : Task α} (busy : solver.dispatching = true)
      (yields : task.edit.Yields ⟨solver, []⟩ result draft) :
      Turn solver draft.notes.reverse draft.solver
  /-- An item of deferred work is taken up, and its own edit succeeds. -/
  | served {work : Edit α (List VariableId)} {moved : List VariableId}
      (idle : solver.dispatching = false)
      (next : solver.nextDeferred = some work)
      (yields : work.Yields ⟨solver, []⟩ (.ok moved) draft) :
      Turn solver draft.notes.reverse draft.solver

inductive Turns (solver : Solver α) : List (Note α) → Solver α → Prop
  | refl : Turns solver [] solver
  | tail (turns : Turns solver earlier middle)
      (turn : middle.Turn later after) :
      Turns solver (earlier ++ later) after

namespace Turns

variable {before middle after : Solver α} {earlier later notes : List (Note α)}

theorem single (turn : before.Turn notes after) : before.Turns notes after :=
  .tail .refl turn

theorem trans (left : before.Turns earlier middle)
    (right : middle.Turns later after) :
    before.Turns (earlier ++ later) after := by
  induction right with
  | refl =>
      rw [List.append_nil]
      exact left
  | tail _ turn induction =>
      rw [← List.append_assoc]
      exact .tail induction turn

end Turns

end Solver

namespace Edit

variable {before after : Draft α} {moved : List VariableId}

/-- A solve that succeeds outside of rounds of hooks is carried out from start
to end. -/
theorem writeSolution_solution (idle : before.solver.dispatching = false)
    (yields : writeSolution.Yields before (.ok moved) after) :
    after.solver.resolvePending = false ∧
      ∃ notes, after.notes = notes.reverse ++ before.notes ∧
        Note.Solution notes := by
  have reset := (writeSolution_cases yields).1.resolvePending.trans idle
  refine ⟨reset, ?_⟩
  simp only [writeSolution, reduction, yields_current_bind, idle,
    Bool.false_eq_true, if_false, yields_update_bind, bind_assoc,
    yields_note_bind, yields_ofOutcome_bind_ok, yields_pure_bind] at yields
  rcases yields with ⟨tableau, _, rest⟩
  split at rest
  · split at rest
    · cases (yields_throw_bind.mp rest).1
    · simp only [yields_note_bind, yields_update_bind, yields_pure] at rest
      rcases rest with ⟨_, rfl⟩
      exact ⟨_, rfl, .contradictory ..⟩
  · simp only [yields_note_bind, yields_update_bind, yields_pure] at rest
    rcases rest with ⟨_, rfl⟩
    exact ⟨_, rfl, .consistent ..⟩

theorem writeSolution_serves (idle : before.solver.dispatching = false)
    (yields : writeSolution.Yields before (.ok moved) after) :
    ∃ notes, after.notes = notes.reverse ++ before.notes ∧
      before.solver.work.Serves notes after.solver.work := by
  rcases writeSolution_solution idle yields with
    ⟨reset, notes, isNotes, solution⟩
  refine ⟨notes, isNotes, .of_unconcerned solution.unconcerned ?_ fun _ =>
    .inr solution.solves⟩
  exact (writeSolution_cases yields).1.marks.2.2.2.2

theorem writeIfAuto_serves (idle : before.solver.dispatching = false)
    (yields : writeIfAuto.Yields before (.ok moved) after) :
    ∃ notes, after.notes = notes.reverse ++ before.notes ∧
      before.solver.work.Serves notes after.solver.work := by
  simp only [writeIfAuto, yields_current_bind] at yields
  split at yields
  · exact writeSolution_serves idle yields
  · rcases yields_pure.mp yields with ⟨_, rfl⟩
    exact ⟨[], rfl, .refl _⟩

theorem applyValue_serves {id : VariableId} {value : α}
    (idle : before.solver.dispatching = false)
    (yields : (applyValue id value).Yields before (.ok moved) after) :
    ∃ notes, after.notes = notes.reverse ++ before.notes ∧
      before.solver.work.Serves notes after.solver.work := by
  have applies := applyValue_cases yields
  generalize isResult : Except.ok moved = result at applies
  cases applies with
  | absent _ | noNews _ _ _ => exact ⟨[], rfl, .refl _⟩
  | unread _ _ => cases isResult
  | @held former _ outcome middle _ _ _ written =>
      cases outcome with
      | error failure => cases isResult
      | ok others =>
          have holding := Solver.SameMarks.holdAt before.solver id value
          have lettingGo :=
            Solver.SameMarks.letGo middle.solver id former (.ok others)
          have stillIdle := holding.dispatching.trans idle
          rcases writeIfAuto_serves stillIdle written with
            ⟨notes, isNotes, serves⟩
          refine ⟨notes, isNotes, ?_⟩
          rw [holding.work] at serves
          rw [lettingGo.work]
          exact serves

end Edit

namespace Solver

variable {before after : Solver α} {notes : List (Note α)}

theorem Turn.serves (turn : before.Turn notes after) :
    before.work.Serves notes after.work := by
  cases turn with
  | marked settings dispatching draining => exact .refl _
  | asked busy yields =>
      rcases Task.edit_waits _ _ _ _ yields busy with
        ⟨_, _, made, isMade, defers⟩
      rw [isMade, List.append_nil]
      exact .of_defers defers
  | served idle next yields =>
      rcases nextDeferred_cases next with ⟨target, value, rest, queue, rfl⟩
        | ⟨queue, pending, rfl⟩
      · simp only [Edit.takeValue, Edit.yields_update_bind,
          Edit.yields_note_bind] at yields
        rcases Edit.applyValue_serves idle yields with ⟨made, isMade, serves⟩
        rw [isMade, List.reverse_append, List.reverse_reverse,
          Solver.work, queue]
        exact (Work.Serves.take target value rest
          before.resolvePending).trans serves
      · simp only [Edit.takeSolve, Edit.yields_note_bind] at yields
        rcases Edit.writeSolution_serves idle yields with ⟨made, isMade, serves⟩
        rw [isMade, List.reverse_append, List.reverse_reverse, Solver.work,
          queue, pending]
        rw [Solver.work, queue, pending] at serves
        exact Work.Serves.takeSolve.trans serves

theorem Turns.serves (turns : before.Turns notes after) :
    before.work.Serves notes after.work := by
  induction turns with
  | refl => exact .refl _
  | tail _ turn induction => exact induction.trans turn.serves

end Solver

end LiveLinear
