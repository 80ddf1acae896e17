import LiveLinear.Proofs.Solver.Upkeep

namespace LiveLinear

/-! # What edits leave waiting

While hooks run, edits put work off and move no value. Otherwise they put
nothing off, and the work that is waiting stays as it is, unless a solve is
carried out to its end. -/

variable {α : Type}

/-! ## Putting work off -/

structure Work.Defers (before : Work α) (notes : List (Note α))
    (after : Work α) : Prop where
  values : after.values = before.values ++ notes.filterMap Note.queued?
  solve : after.solve = (before.solve || notes.any Note.isSolveDeferred)
  untaken : ∀ note ∈ notes, note.taken? = Option.none ∧
    note.isSolveTaken = false

namespace Note

theorem of_unconcerned {note : Note α}
    (unconcerned : note.concernsWork = false) :
    note.queued? = none ∧ note.taken? = none ∧ note.isSolveDeferred = false ∧
      note.isSolveTaken = false := by
  cases note with
  | assembled | reduced | solved | contradictionIgnored =>
      exact ⟨rfl, rfl, rfl, rfl⟩
  | solveDeferred | valueQueued | valueTaken | solveTaken => cases unconcerned

end Note

namespace Work.Defers

variable {before middle after : Work α} {notes earlier later : List (Note α)}

theorem refl (work : Work α) : work.Defers [] work :=
  ⟨by simp, by simp, by simp⟩

theorem trans (first : before.Defers earlier middle)
    (second : middle.Defers later after) :
    before.Defers (earlier ++ later) after := by
  constructor
  · rw [second.values, first.values, List.filterMap_append, List.append_assoc]
  · rw [second.solve, first.solve, List.any_append, Bool.or_assoc]
  · intro note member
    rcases List.mem_append.mp member with early | late
    · exact first.untaken note early
    · exact second.untaken note late

theorem of_unconcerned {work : Work α}
    (unconcerned : ∀ note ∈ notes, note.concernsWork = false) :
    work.Defers notes work := by
  have queued : notes.filterMap Note.queued? = [] :=
    List.filterMap_eq_nil_iff.mpr fun note member =>
      (Note.of_unconcerned (unconcerned note member)).1
  have deferred : notes.any Note.isSolveDeferred = false :=
    List.any_eq_false.mpr fun note member => by
      simp [Note.of_unconcerned (unconcerned note member)]
  constructor
  · rw [queued, List.append_nil]
  · rw [deferred, Bool.or_false]
  · intro note member
    rcases Note.of_unconcerned (unconcerned note member) with
      ⟨_, taken, _, solveTaken⟩
    exact ⟨taken, solveTaken⟩

end Work.Defers

/-! ## Edits while hooks run -/

def Draft.Waits (before after : Draft α) : Prop :=
  before.solver.dispatching = true →
    after.solver.dispatching = true ∧ before.solver.KeepsValues after.solver ∧
      ∃ notes, after.notes = notes ++ before.notes ∧
        before.solver.work.Defers notes.reverse after.solver.work

def Draft.Minds (before after : Draft α) : Prop :=
  before.solver.dispatching = false →
    after.solver.dispatching = false ∧
    after.solver.deferred = before.solver.deferred ∧
      ∃ notes, after.notes = notes ++ before.notes ∧
        ∀ note ∈ notes, note.concernsWork = false

theorem Draft.Waits.lasting :
    Edit.Lasting (Draft.Waits : Draft α → Draft α → Prop) := by
  constructor
  · exact fun draft busy => ⟨busy, .refl _, [], rfl, .refl _⟩
  · intro first second third left right busy
    rcases left busy with ⟨stillBusy, kept, earlier, leftNotes, leftDefers⟩
    rcases right stillBusy with
      ⟨busyAfter, keptToo, later, rightNotes, rightDefers⟩
    refine ⟨busyAfter, kept.trans keptToo, later ++ earlier, ?_, ?_⟩
    · rw [rightNotes, leftNotes, List.append_assoc]
    · rw [List.reverse_append]
      exact leftDefers.trans rightDefers

theorem Draft.Minds.lasting :
    Edit.Lasting (Draft.Minds : Draft α → Draft α → Prop) := by
  constructor
  · exact fun draft idle => ⟨idle, rfl, [], rfl, by simp⟩
  · intro first second third left right idle
    rcases left idle with
      ⟨stillIdle, sameQueue, earlier, leftNotes, unconcerned⟩
    rcases right stillIdle with
      ⟨idleAfter, sameQueueToo, later, rightNotes, unconcernedToo⟩
    refine ⟨idleAfter, sameQueueToo.trans sameQueue, later ++ earlier, ?_, ?_⟩
    · rw [rightNotes, leftNotes, List.append_assoc]
    · intro note member
      rcases List.mem_append.mp member with late | early
      · exact unconcernedToo note late
      · exact unconcerned note early

theorem Solver.SameMarks.work {before after : Solver α}
    (same : before.SameMarks after) :
    after.work = before.work := by
  simp only [Solver.work, same.deferred, same.resolvePending]

theorem Draft.minds_of_sameMarks (draft : Draft α) {solver : Solver α}
    (same : draft.solver.SameMarks solver) :
    draft.Minds { draft with solver } :=
  fun idle => ⟨same.dispatching.trans idle, same.deferred, [], rfl, by simp⟩

def Draft.QueuesNothing (before after : Draft α) : Prop :=
  before.solver.dispatching = true →
    after.solver.dispatching = true ∧
    after.solver.deferred = before.solver.deferred

theorem Draft.QueuesNothing.lasting :
    Edit.Lasting (Draft.QueuesNothing : Draft α → Draft α → Prop) := by
  constructor
  · exact fun draft busy => ⟨busy, rfl⟩
  · intro first second third left right busy
    rcases left busy with ⟨stillBusy, same⟩
    rcases right stillBusy with ⟨busyAfter, sameToo⟩
    exact ⟨busyAfter, sameToo.trans same⟩

theorem Edit.queuesNothing_update {change : Solver α → Solver α}
    (marks : ∀ solver : Solver α, solver.SameMarks (change solver)) :
    Keeps Draft.QueuesNothing (update change) :=
  keeps_update fun draft busy =>
    ⟨(marks draft.solver).dispatching.trans busy, (marks draft.solver).deferred⟩

theorem Edit.still_queuesNothing {β : Type} {edit : Edit α β}
    (kept : Keeps Draft.QueuesNothing edit) :
    Keeps Draft.QueuesNothing edit.still :=
  Draft.QueuesNothing.lasting.bind kept fun _ =>
    Draft.QueuesNothing.lasting.pure []

theorem Draft.queuesNothing_noted (draft : Draft α) (notes : List (Note α)) :
    draft.QueuesNothing { draft with notes } :=
  fun busy => ⟨busy, rfl⟩

/-- Whether the note says that an item of deferred work was taken up. -/
def Note.isTaken (note : Note α) : Bool :=
  note.taken?.isSome || note.isSolveTaken

theorem Work.Defers.countP_isTaken {before after : Work α}
    {notes : List (Note α)} (defers : before.Defers notes after) :
    notes.countP Note.isTaken = 0 := by
  apply List.countP_eq_zero.mpr
  intro note member
  rcases defers.untaken note member with ⟨taken, solveTaken⟩
  simp [Note.isTaken, taken, solveTaken]

theorem Note.countP_isTaken_of_unconcerned {notes : List (Note α)}
    (unconcerned : ∀ note ∈ notes, note.concernsWork = false) :
    notes.countP Note.isTaken = 0 := by
  have defers : Work.none.Defers notes Work.none := .of_unconcerned unconcerned
  exact defers.countP_isTaken

theorem Draft.Minds.countP_isTaken {before after : Draft α}
    (minds : before.Minds after) (idle : before.solver.dispatching = false) :
    after.notes.countP Note.isTaken = before.notes.countP Note.isTaken := by
  rcases minds idle with ⟨_, _, notes, isNotes, unconcerned⟩
  rw [isNotes, List.countP_append,
    Note.countP_isTaken_of_unconcerned unconcerned, Nat.zero_add]

variable [Scalar α]

theorem Edit.writeSolution_minds :
    Keeps Draft.Minds (writeSolution : Edit α _) := by
  intro before result after yields idle
  rcases writeSolution_cases yields with ⟨writes, notes, isNotes, concern⟩
  rcases writes.marks with ⟨_, _, dispatching, _, deferred⟩
  refine ⟨dispatching.trans idle, deferred, notes, isNotes, ?_⟩
  rcases concern with ⟨busy, _⟩ | ⟨_, unconcerned⟩
  · rw [idle] at busy
    cases busy
  · exact unconcerned

theorem Edit.writeIfAuto_minds :
    Keeps Draft.Minds (writeIfAuto : Edit α _) := by
  refine Draft.Minds.lasting.bind Draft.Minds.lasting.current fun solver => ?_
  split
  · exact writeSolution_minds
  · exact Draft.Minds.lasting.pure []

theorem Edit.applyValue_minds (id : VariableId) (value : α) :
    Keeps Draft.Minds (applyValue id value) := by
  intro before result after yields
  cases applyValue_cases yields with
  | absent _ | unread _ _ | noNews _ _ _ => exact Draft.Minds.lasting.refl _
  | @held former _ outcome middle _ _ _ written =>
      have holding := before.minds_of_sameMarks (.holdAt before.solver id value)
      have lettingGo :=
        middle.minds_of_sameMarks (.letGo middle.solver id former outcome)
      have writing := writeIfAuto_minds _ _ _ written
      exact Draft.Minds.lasting.trans _ _ _
        (Draft.Minds.lasting.trans _ _ _ holding writing) lettingGo

namespace Draft.Piece

variable {before after : Draft α}

theorem waits (piece : before.Piece after) : before.Waits after := by
  cases piece with
  | changed _ marks values =>
      refine fun busy => ⟨marks.dispatching.trans busy, values, [], rfl, ?_⟩
      simp only [marks.work]
      exact .refl _
  | noted unconcerned =>
      refine fun busy => ⟨busy, .refl _, [_], rfl, .of_unconcerned ?_⟩
      simpa using unconcerned
  | wrote yields =>
      intro busy
      rcases after with ⟨solver, made⟩
      rcases Edit.writeSolution_cases yields with
        ⟨writes, notes, isNotes, concern⟩
      cases writes with
      | deferred _ =>
          rcases concern with ⟨_, rfl⟩ | ⟨idle, _⟩
          · refine ⟨busy, .of_unknowns rfl rfl, _, isNotes, ?_, ?_, ?_⟩
            · simp [Solver.work, Note.queued?]
            · simp [Solver.work, Note.isSolveDeferred]
            · simp [Note.taken?, Note.isSolveTaken]
          · rw [busy] at idle
            cases idle
      | unassembled idle _ | refused idle _ _ _ | written idle _ _ =>
          rw [busy] at idle
          cases idle
  | queued _ id value =>
      refine fun busy => ⟨busy, .of_unknowns rfl rfl, [_], rfl, ?_, ?_, ?_⟩
      · rfl
      · simp [Solver.work, Note.isSolveDeferred]
      · simp [Note.taken?, Note.isSolveTaken]
  | applied idle _ =>
      intro busy
      rw [busy] at idle
      cases idle

theorem minds (piece : before.Piece after) : before.Minds after := by
  cases piece with
  | changed _ marks _ => exact before.minds_of_sameMarks marks
  | noted unconcerned =>
      exact fun idle => ⟨idle, rfl, [_], rfl, by simpa using unconcerned⟩
  | wrote yields => exact Edit.writeSolution_minds _ _ _ yields
  | queued busy _ _ =>
      intro idle
      rw [idle] at busy
      cases busy
  | applied _ yields => exact Edit.applyValue_minds _ _ _ _ _ yields

end Draft.Piece

theorem Task.edit_waits (task : Task α) : Edit.Keeps Draft.Waits task.edit :=
  task.edit_keeps Draft.Waits.lasting Draft.Piece.waits

theorem Task.edit_minds (task : Task α) : Edit.Keeps Draft.Minds task.edit :=
  task.edit_keeps Draft.Minds.lasting Draft.Piece.minds

def Solver.accepted? (solver : Solver α) (handle : VariableHandle)
    (value : Option α) :
    Option (VariableId × α) :=
  match solver.checkVariable (.handle handle), finite .variableValue value with
  | .ok id, .ok number => some (id, number)
  | .error _, _ | .ok _, .error _ => none

/-- While hooks run, a value is queued exactly if the request can be met;
otherwise the request fails and nothing happens. -/
theorem Edit.yields_setValue_of_dispatching {handle : VariableHandle}
    {value : Option α} {before after : Draft α}
    {result : Except (Failure α) (List VariableId)}
    (busy : before.solver.dispatching = true)
    (yields : (setValue handle value).Yields before result after) :
    match before.solver.accepted? handle value with
    | some (id, number) => result = .ok [] ∧
        after =
          ⟨{ before.solver with deferred := before.solver.deferred ++
            [(id, number)] }, .valueQueued id number :: before.notes⟩
    | none => (∃ failure, result = .error failure) ∧ after = before := by
  rcases yields_check_bind.mp yields with ⟨failure, failed, isResult, isAfter⟩
    | ⟨id, live, rest⟩
  · simp only [Solver.accepted?, failed]
    exact ⟨⟨failure, isResult⟩, isAfter⟩
  · rcases yields_ofOutcome_bind.mp rest with
      ⟨failure, failed, isResult, isAfter⟩ | ⟨number, isNumber, queueing⟩
    · simp only [Solver.accepted?, live, failed]
      exact ⟨⟨failure, isResult⟩, isAfter⟩
    · rw [yields_current_bind, if_pos busy, yields_update_bind,
        yields_note_bind, yields_pure] at queueing
      simp only [Solver.accepted?, live, isNumber]
      exact queueing

/-! ## What is queued while hooks run -/

namespace Edit

open Draft (QueuesNothing)
open Draft.QueuesNothing (lasting)

theorem reduction_queuesNothing (solver : Solver α) :
    Keeps QueuesNothing (reduction solver) := by
  refine lasting.bind (keeps_note fun draft => draft.queuesNothing_noted _)
    fun _ => ?_
  refine lasting.bind (lasting.ofOutcome _) fun tableau => ?_
  exact lasting.bind (keeps_note fun draft => draft.queuesNothing_noted _)
    fun _ => lasting.pure _

theorem writeSolution_queuesNothing :
    Keeps QueuesNothing (writeSolution : Edit α _) := by
  intro before result after yields busy
  rcases (writeSolution_cases yields).1.marks with
    ⟨_, _, dispatching, _, deferred⟩
  exact ⟨dispatching.trans busy, deferred⟩

theorem writeIfAuto_queuesNothing :
    Keeps QueuesNothing (writeIfAuto : Edit α _) := by
  refine lasting.bind lasting.current fun solver => ?_
  split
  · exact writeSolution_queuesNothing
  · exact lasting.pure []

theorem modifyConstraint_queuesNothing (id : ConstraintId)
    (change : Constraint α → Constraint α) :
    Keeps QueuesNothing (do
      update fun solver : Solver α => solver.modifyConstraint id change
      writeIfAuto) :=
  lasting.bind (queuesNothing_update fun _ => ⟨rfl, rfl, rfl, rfl, rfl, rfl⟩)
    fun _ => writeIfAuto_queuesNothing

end Edit

/-- The value that a task asks for, if it asks for one and that can be met. -/
def Task.request? (solver : Solver α) : Task α → Option (VariableId × α)
  | .setValue handle value => solver.accepted? handle value
  | .solve | .addVariable _ _ | .lock _ | .unlock _ | .deleteVariable _
      | .observe _ _ | .forget _ _ | .addConstraint _ _ | .setTerm _ _ _
      | .addTerm _ _ _ | .removeTerm _ _ | .setSum _ _ | .deleteConstraint _
      | .isOverConstrained | .isUnderConstrained | .freeVariables => none

section Requests

open Edit
open Draft (QueuesNothing)
open Draft.QueuesNothing (lasting)

/-- While hooks run, exactly the values that are asked for, and can be met, are
queued. -/
theorem Task.deferred_of_dispatching {task : Task α} {before after : Draft α}
    {result : Except (Failure α) (List VariableId)}
    (busy : before.solver.dispatching = true)
    (yields : task.edit.Yields before result after) :
    after.solver.deferred = before.solver.deferred ++
      (task.request? before.solver).toList := by
  have nothing : Keeps QueuesNothing task.edit →
      after.solver.deferred = before.solver.deferred ++ [] := by
    intro kept
    rw [List.append_nil]
    exact (kept _ _ _ yields busy).2
  have marks : ∀ {change : Solver α → Solver α},
      (∀ solver : Solver α, solver.SameMarks (change solver)) →
      Keeps QueuesNothing (update change) :=
    queuesNothing_update
  cases task with
  | setValue handle value =>
      have queues := yields_setValue_of_dispatching busy yields
      rw [Task.request?]
      split at queues
      · next id number accepted =>
          rw [accepted, queues.2]
          rfl
      · next refused =>
          rw [refused, queues.2, Option.toList_none, List.append_nil]
  | solve => exact nothing writeSolution_queuesNothing
  | addVariable name value =>
      refine nothing
        (still_queuesNothing
          (lasting.bind (lasting.ofOutcome _) fun value => ?_))
      refine lasting.bind lasting.current fun _ =>
        lasting.bind (marks fun _ => ?_) fun _ => ?_
      · exact ⟨rfl, rfl, rfl, rfl, rfl, rfl⟩
      · exact lasting.pure _
  | lock handle =>
      refine nothing (lasting.bind (lasting.check _) fun contents => ?_)
      split
      · exact lasting.pure []
      · refine lasting.bind (marks fun _ => .pin _ _) fun _ => ?_
        refine lasting.undoing (fun draft busy => ?_) writeIfAuto_queuesNothing
        have same := Solver.SameMarks.release draft.solver handle.id
        exact ⟨same.dispatching.trans busy, same.deferred⟩
  | unlock handle =>
      exact nothing (still_queuesNothing (lasting.bind (lasting.check _)
        fun _ => marks fun _ => .release _ _))
  | deleteVariable handle =>
      exact nothing (still_queuesNothing (lasting.bind (lasting.check _)
        fun _ => marks fun _ => .eraseVariable _ _))
  | observe handle hook =>
      exact nothing (still_queuesNothing (lasting.bind (lasting.check _)
        fun _ => marks fun _ => ⟨rfl, rfl, rfl, rfl, rfl, rfl⟩))
  | forget id hook =>
      refine nothing (still_queuesNothing (marks fun solver => ?_))
      split
      · split
        · exact ⟨rfl, rfl, rfl, rfl, rfl, rfl⟩
        · exact .refl solver
      · exact .refl solver
  | addConstraint terms total =>
      refine nothing ?_
      rw [Task.edit_addConstraint]
      refine lasting.bind (lasting.ofOutcome _) fun sum =>
        lasting.bind (lasting.check _) fun _ => ?_
      refine lasting.bind lasting.current fun _ =>
        lasting.bind (marks fun _ => ?_) fun _ => ?_
      · exact ⟨rfl, rfl, rfl, rfl, rfl, rfl⟩
      · exact lasting.undoing (fun draft busy => ⟨busy, rfl⟩)
          writeIfAuto_queuesNothing
  | setTerm handle argument coefficient =>
      exact nothing (lasting.bind (lasting.check _) fun _ =>
        lasting.bind (lasting.ofOutcome _) fun _ =>
          lasting.bind (lasting.check _) fun _ =>
            modifyConstraint_queuesNothing _ _)
  | addTerm handle argument coefficient =>
      exact nothing (lasting.bind (lasting.check _) fun _ =>
        lasting.bind (lasting.check _) fun _ =>
          lasting.bind (lasting.ofOutcome _) fun _ =>
            modifyConstraint_queuesNothing _ _)
  | removeTerm handle argument =>
      exact nothing (lasting.bind (lasting.check _) fun _ =>
        lasting.bind (lasting.check _) fun _ =>
          modifyConstraint_queuesNothing _ _)
  | setSum handle total =>
      exact nothing (lasting.bind (lasting.ofOutcome _) fun _ =>
        lasting.bind (lasting.check _) fun _ =>
          modifyConstraint_queuesNothing _ _)
  | deleteConstraint handle =>
      exact nothing (still_queuesNothing (lasting.bind (lasting.check _)
        fun _ => marks fun _ => ⟨rfl, rfl, rfl, rfl, rfl, rfl⟩))
  | isOverConstrained | isUnderConstrained | freeVariables =>
      exact nothing
          (still_queuesNothing (lasting.bind lasting.current fun solver =>
        lasting.bind (reduction_queuesNothing solver) fun _ => lasting.pure _))

theorem Task.queued_of_dispatching {task : Task α} {solver : Solver α}
    {draft : Draft α} {result : Except (Failure α) (List VariableId)}
    (busy : solver.dispatching = true)
    (yields : task.edit.Yields ⟨solver, []⟩ result draft) :
    draft.notes.reverse.filterMap Note.queued? =
      (task.request? solver).toList := by
  rcases Task.edit_waits _ _ _ _ yields busy with ⟨_, _, notes, isNotes, defers⟩
  rw [List.append_nil] at isNotes
  have queued := defers.values
  simp only [Solver.work, deferred_of_dispatching busy yields] at queued
  rw [isNotes]
  exact (List.append_cancel_left queued).symm

end Requests

theorem Solver.countP_isTaken_of_nextDeferred {solver : Solver α}
    {draft : Draft α} {work : Edit α (List VariableId)}
    {result : Except (Failure α) (List VariableId)}
    (idle : solver.dispatching = false) (next : solver.nextDeferred = some work)
    (yields : work.Yields ⟨solver, []⟩ result draft) :
    draft.notes.countP Note.isTaken = 1 := by
  rcases nextDeferred_cases next with ⟨target, value, rest, _, rfl⟩
    | ⟨_, _, rfl⟩
  · simp only [Edit.takeValue, Edit.yields_update_bind, Edit.yields_note_bind]
      at yields
    exact (Edit.applyValue_minds target value _ _ _ yields).countP_isTaken idle
  · simp only [Edit.takeSolve, Edit.yields_note_bind] at yields
    exact (Edit.writeSolution_minds _ _ _ yields).countP_isTaken idle

end LiveLinear
