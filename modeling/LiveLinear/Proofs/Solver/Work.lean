import LiveLinear.Proofs.Solver.Yields

namespace LiveLinear

/-! # Deferred work

The work that a solver has put off, and how notes account for it: what is taken
up or still put off had been put off before or was asked for since, in the same
order. -/

variable {α : Type}

namespace Note

def queued? : Note α → Option (VariableId × α)
  | .valueQueued id value => some (id, value)
  | _ => none

def taken? : Note α → Option (VariableId × α)
  | .valueTaken id value => some (id, value)
  | _ => none

def isSolveDeferred : Note α → Bool
  | .solveDeferred => true
  | _ => false

def isSolveTaken : Note α → Bool
  | .solveTaken => true
  | _ => false

def concernsWork : Note α → Bool
  | .solveDeferred | .valueQueued _ _ | .valueTaken _ _ | .solveTaken => true
  | _ => false

end Note

structure Work (α : Type) where
  values : List (VariableId × α)
  solve : Bool

namespace Work

def none : Work α :=
  ⟨[], false⟩

structure Accounts (before : Work α) (notes : List (Note α)) (after : Work α) :
    Prop where
  values : (notes.filterMap Note.taken? ++ after.values).Sublist
    (before.values ++ notes.filterMap Note.queued?)
  solves : notes.countP Note.isSolveTaken + after.solve.toNat ≤
    before.solve.toNat + notes.countP Note.isSolveDeferred

namespace Accounts

variable {before middle after : Work α} {notes earlier later : List (Note α)}

theorem refl (work : Work α) : Accounts work [] work :=
  ⟨by simp, by simp⟩

theorem trans (first : Accounts before earlier middle)
    (second : Accounts middle later after) :
    Accounts before (earlier ++ later) after := by
  constructor
  · have kept := second.values.append_left (earlier.filterMap Note.taken?)
    have extended := first.values.append_right (later.filterMap Note.queued?)
    simp only [List.filterMap_append, List.append_assoc] at kept extended ⊢
    exact kept.trans extended
  · have left := first.solves
    have right := second.solves
    rw [List.countP_append, List.countP_append]
    omega

theorem queue (work : Work α) (id : VariableId) (value : α) :
    work.Accounts [.valueQueued id value]
      ⟨work.values ++ [(id, value)], work.solve⟩ :=
  ⟨List.Sublist.refl _, by simp [Note.isSolveTaken]⟩

theorem take (id : VariableId) (value : α) (rest : List (VariableId × α))
    (solve : Bool) :
    Accounts ⟨(id, value) :: rest, solve⟩ [.valueTaken id value]
      ⟨rest, solve⟩ :=
  ⟨by simp [Note.taken?], by simp [Note.isSolveTaken]⟩

theorem takeSolve (values : List (VariableId × α)) :
    Accounts ⟨values, true⟩ [.solveTaken] ⟨values, false⟩ :=
  ⟨by simp [Note.taken?], by simp [Note.isSolveTaken]⟩

theorem of_idle {values : List (VariableId × α)} (solve : Bool)
    (accounts : Accounts ⟨values, false⟩ notes after) :
    Accounts ⟨values, solve⟩ notes after := by
  refine ⟨accounts.values, Nat.le_trans accounts.solves ?_⟩
  simp

/-- Notes about other things account for work that only gets less. -/
theorem of_sublist (unconcerned : ∀ note ∈ notes, note.concernsWork = false)
    (values : after.values.Sublist before.values)
    (solve : after.solve = true → before.solve = true) :
    Accounts before notes after := by
  have others : notes.filterMap Note.taken? = [] ∧
      notes.filterMap Note.queued? = [] ∧ notes.countP Note.isSolveTaken = 0 ∧
      notes.countP Note.isSolveDeferred = 0 := by
    simp only [List.filterMap_eq_nil_iff, List.countP_eq_zero]
    refine ⟨?_, ?_, ?_, ?_⟩ <;>
    · intro note member
      have concerned := unconcerned note member
      cases note <;> simp_all [Note.concernsWork, Note.taken?, Note.queued?,
        Note.isSolveTaken, Note.isSolveDeferred]
  rcases others with ⟨noTaken, noQueued, noSolveTaken, noSolveDeferred⟩
  constructor
  · rw [noTaken, noQueued, List.nil_append, List.append_nil]
    exact values
  · rw [noSolveTaken, noSolveDeferred]
    cases afterSolve : after.solve with
    | false => simp
    | true => simp [solve afterSolve]

end Accounts

end Work

def Solver.work (solver : Solver α) : Work α :=
  ⟨solver.deferred, solver.resolvePending⟩

/-! ## Steady edits -/

/-- Two solvers that may differ in their contents only. -/
structure Solver.SameMarks (before after : Solver α) : Prop where
  id : after.id = before.id
  settings : after.settings = before.settings
  dispatching : after.dispatching = before.dispatching
  draining : after.draining = before.draining
  resolvePending : after.resolvePending = before.resolvePending
  deferred : after.deferred = before.deferred

namespace Solver.SameMarks

theorem refl (solver : Solver α) : solver.SameMarks solver :=
  ⟨rfl, rfl, rfl, rfl, rfl, rfl⟩

theorem trans {first second third : Solver α} (left : first.SameMarks second)
    (right : second.SameMarks third) : first.SameMarks third :=
  ⟨right.id.trans left.id, right.settings.trans left.settings,
    right.dispatching.trans left.dispatching,
    right.draining.trans left.draining,
    right.resolvePending.trans left.resolvePending,
    right.deferred.trans left.deferred⟩

theorem storeValue (solver : Solver α) (id : VariableId) (value : α) :
    solver.SameMarks (solver.storeValue id value) :=
  ⟨rfl, rfl, rfl, rfl, rfl, rfl⟩

theorem pin [One α] (solver : Solver α) (id : VariableId) :
    solver.SameMarks (solver.pin id) := by
  unfold Solver.pin
  split
  · exact refl solver
  · exact ⟨rfl, rfl, rfl, rfl, rfl, rfl⟩

theorem release (solver : Solver α) (id : VariableId) :
    solver.SameMarks (solver.release id) := by
  unfold Solver.release
  split
  · exact ⟨rfl, rfl, rfl, rfl, rfl, rfl⟩
  · exact refl solver

theorem eraseVariable (solver : Solver α) (id : VariableId) :
    solver.SameMarks (solver.eraseVariable id) :=
  (release solver id).trans ⟨rfl, rfl, rfl, rfl, rfl, rfl⟩

end Solver.SameMarks

/-- How an operation may change the drafts it works on: it leaves the marks of
dispatching and draining alone, a solver that is not dispatching puts nothing
off, and the notes account for the work. -/
structure Draft.Steady (before after : Draft α) : Prop where
  id : after.solver.id = before.solver.id
  settings : after.solver.settings = before.solver.settings
  dispatching : after.solver.dispatching = before.solver.dispatching
  draining : after.solver.draining = before.solver.draining
  idle : before.solver.dispatching = false →
    after.solver.deferred = before.solver.deferred ∧
      (after.solver.resolvePending = true → before.solver.resolvePending = true)
  accounted : ∃ notes, after.notes = notes ++ before.notes ∧
    before.solver.work.Accounts notes.reverse after.solver.work

namespace Draft.Steady

theorem refl (draft : Draft α) : Draft.Steady draft draft :=
  ⟨rfl, rfl, rfl, rfl, fun _ => ⟨rfl, fun pending => pending⟩,
    [], rfl, Work.Accounts.refl _⟩

theorem trans (first second third : Draft α) (left : Draft.Steady first second)
    (right : Draft.Steady second third) : Draft.Steady first third := by
  rcases left.accounted with ⟨earlier, leftNotes, leftAccounts⟩
  rcases right.accounted with ⟨later, rightNotes, rightAccounts⟩
  refine ⟨right.id.trans left.id, right.settings.trans left.settings,
    right.dispatching.trans left.dispatching,
    right.draining.trans left.draining, ?_, later ++ earlier, ?_, ?_⟩
  · intro isIdle
    rcases left.idle isIdle with ⟨leftDeferred, leftPending⟩
    rcases right.idle (left.dispatching.trans isIdle) with
      ⟨rightDeferred, rightPending⟩
    exact ⟨rightDeferred.trans leftDeferred, fun pending =>
      leftPending (rightPending pending)⟩
  · rw [rightNotes, leftNotes, List.append_assoc]
  · rw [List.reverse_append]
    exact leftAccounts.trans rightAccounts

theorem lasting : Edit.Lasting (Draft.Steady : Draft α → Draft α → Prop) :=
  ⟨refl, trans⟩

theorem of_sameMarks (draft : Draft α) {solver : Solver α}
    (same : draft.solver.SameMarks solver) :
    Draft.Steady draft { draft with solver } := by
  refine ⟨same.id, same.settings, same.dispatching, same.draining, ?_, [],
    rfl, ?_⟩
  · intro _
    exact ⟨same.deferred, fun pending => same.resolvePending.symm.trans pending⟩
  · have sameWork : Solver.work solver = draft.solver.work := by
      simp only [Solver.work, same.deferred, same.resolvePending]
    show draft.solver.work.Accounts [] (Solver.work solver)
    rw [sameWork]
    exact Work.Accounts.refl _

end Draft.Steady

end LiveLinear
