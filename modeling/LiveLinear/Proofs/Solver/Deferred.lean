import LiveLinear.Proofs.Solver.Writing

namespace LiveLinear

/-! # Taking up deferred work -/

namespace Edit

variable {α : Type} [Scalar α]

/-- Take up the first value of the queue. -/
def takeValue (target : VariableId) (value : α) (rest : List (VariableId × α)) :
    Edit α (List VariableId) := do
  update fun solver => { solver with deferred := rest }
  note (.valueTaken target value)
  applyValue target value

def takeSolve : Edit α (List VariableId) := do
  note .solveTaken
  writeSolution

end Edit

namespace Solver

variable {α : Type} [Scalar α]

/-- The next piece of deferred work: a queued value, or else a solve. -/
def nextDeferred (solver : Solver α) : Option (Edit α (List VariableId)) :=
  match solver.deferred, solver.resolvePending with
  | (target, value) :: rest, _ => some (Edit.takeValue target value rest)
  | [], true => some Edit.takeSolve
  | [], false => none

variable {solver : Solver α}

theorem nextDeferred_of_queued {target : VariableId} {value : α}
    {rest : List (VariableId × α)}
    (queue : solver.deferred = (target, value) :: rest) :
    solver.nextDeferred = some (Edit.takeValue target value rest) := by
  simp only [nextDeferred, queue]

theorem nextDeferred_of_pending (queue : solver.deferred = [])
    (pending : solver.resolvePending = true) :
    solver.nextDeferred = some Edit.takeSolve := by
  simp only [nextDeferred, queue, pending]

theorem nextDeferred_cases {work : Edit α (List VariableId)}
    (next : solver.nextDeferred = some work) :
    (∃ target value rest, solver.deferred = (target, value) :: rest ∧
        work = Edit.takeValue target value rest) ∨
      solver.deferred = [] ∧ solver.resolvePending = true ∧
      work = Edit.takeSolve := by
  unfold nextDeferred at next
  split at next
  · next target value rest queue =>
      cases next
      exact .inl ⟨target, value, rest, queue, rfl⟩
  · next queue pending =>
      cases next
      exact .inr ⟨queue, pending, rfl⟩
  · cases next

theorem nextDeferred_eq_none :
    solver.nextDeferred = none ↔ solver.deferred = [] ∧
    solver.resolvePending = false := by
  unfold nextDeferred
  rcases solver.deferred with _ | ⟨⟨_, _⟩, _⟩ <;> cases solver.resolvePending
    <;> simp

/-- Taking up an item changes no marks, and the notes account for the work that
is left. -/
structure Takes (solver : Solver α) (after : Draft α) : Prop where
  id : after.solver.id = solver.id
  settings : after.solver.settings = solver.settings
  dispatching : after.solver.dispatching = solver.dispatching
  draining : after.solver.draining = solver.draining
  accounted : solver.work.Accounts after.notes.reverse after.solver.work

theorem takes_of_nextDeferred {work : Edit α (List VariableId)}
    {after : Draft α} {result : Except (Failure α) (List VariableId)}
    (next : solver.nextDeferred = some work)
    (yields : work.Yields ⟨solver, []⟩ result after) : solver.Takes after := by
  rcases nextDeferred_cases next with ⟨target, value, rest, queue, rfl⟩
    | ⟨queue, pending, rfl⟩
  · simp only [Edit.takeValue, Edit.yields_update_bind, Edit.yields_note_bind]
      at yields
    have steady := Edit.applyValue_steady target value _ _ _ yields
    rcases steady.accounted with ⟨notes, isNotes, accounts⟩
    refine ⟨steady.id, steady.settings, steady.dispatching, steady.draining, ?_⟩
    have taken := Work.Accounts.take target value rest solver.resolvePending
    rw [isNotes, List.reverse_append]
    rw [Solver.work, queue]
    exact taken.trans accounts
  · simp only [Edit.takeSolve, Edit.yields_note_bind] at yields
    have steady := Edit.writeSolution_steady _ _ _ yields
    rcases Edit.writeSolution_accounts yields with ⟨notes, isNotes, accounts⟩
    refine ⟨steady.id, steady.settings, steady.dispatching, steady.draining, ?_⟩
    rw [isNotes, List.reverse_append]
    rw [Solver.work, queue, pending]
    rw [queue] at accounts
    exact (Work.Accounts.takeSolve []).trans accounts

end Solver

end LiveLinear
