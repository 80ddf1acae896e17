import LiveLinear.Proofs.Solver.Turns

namespace LiveLinear

/-! # While automatic solving is off

An operation that would be followed by a solve neither solves nor asks for a
solve while automatic solving is off. -/

variable {α : Type}

/-- Whether a note tells of a solve that begins, or of one that is put off. -/
def Note.solves : Note α → Bool
  | .assembled _ _ | .solveDeferred => true
  | .reduced _ _ _ | .solved _ _ | .valueQueued _ _ | .contradictionIgnored
      | .valueTaken _ _ | .solveTaken => false

/-- Whether a task solves, or tries to, by what it is: all others solve only
because automatic solving is on. -/
def Task.orders : Task α → Bool
  | .solve | .isOverConstrained | .isUnderConstrained | .freeVariables => true
  | .addVariable .. | .setValue .. | .lock .. | .unlock .. | .deleteVariable ..
      | .observe .. | .forget .. | .addConstraint .. | .setTerm .. | .addTerm ..
      | .removeTerm .. | .setSum .. | .deleteConstraint .. => false

def Draft.Pausing (before after : Draft α) : Prop :=
  before.solver.settings.autoSolve = false →
    after.solver.settings.autoSolve = false ∧ ∃ notes,
    after.notes = notes ++ before.notes ∧ ∀ note ∈ notes, note.solves = false

namespace Draft.Pausing

variable {before after : Draft α}

theorem lasting : Edit.Lasting (Pausing : Draft α → Draft α → Prop) := by
  refine ⟨fun _ off => ⟨off, [], rfl, by simp⟩, ?_⟩
  intro first second third left right off
  rcases left off with ⟨stillOff, earlier, isSecond, pausing⟩
  rcases right stillOff with ⟨offAfter, later, isThird, pausingToo⟩
  refine ⟨offAfter, later ++ earlier, ?_, ?_⟩
  · rw [isThird, isSecond, List.append_assoc]
  · intro note member
    exact (List.mem_append.mp member).elim (pausingToo note) (pausing note)

theorem of_settings (draft : Draft α) {solver : Solver α}
    (same : solver.settings = draft.solver.settings) :
    draft.Pausing { draft with solver } :=
  fun off => ⟨same ▸ off, [], rfl, by simp⟩

end Draft.Pausing

theorem Edit.pausing_update {change : Solver α → Solver α}
    (same : ∀ solver, (change solver).settings = solver.settings) :
    Edit.Keeps Draft.Pausing (Edit.update change) :=
  Edit.keeps_update fun draft => .of_settings draft (same draft.solver)

theorem Edit.pausing_note {note : Note α} (silent : note.solves = false) :
    Edit.Keeps Draft.Pausing (Edit.note note) :=
  Edit.keeps_note fun _ off => ⟨off, [note], rfl, by simp [silent]⟩

variable [Scalar α]

namespace Edit

open Draft (Pausing)
open Draft.Pausing (lasting)

variable {before after : Draft α}

theorem writeIfAuto_pausing : Keeps Pausing (writeIfAuto : Edit α _) := by
  intro before result after yields off
  rcases writeIfAuto_cases yields with ⟨on, _⟩ | ⟨_, _, rfl⟩
  · cases on.symm.trans off
  · exact lasting.refl _ off

theorem undoing_pausing {undo : Solver α → Solver α}
    (same : ∀ solver, (undo solver).settings = solver.settings) :
    Keeps Pausing (writeIfAuto.undoing undo : Edit α _) :=
  lasting.undoing (fun draft => .of_settings draft (same draft.solver))
    writeIfAuto_pausing

theorem modifyConstraint_pausing (id : ConstraintId)
    (change : Constraint α → Constraint α) :
    Keeps Pausing (do
      update fun solver => solver.modifyConstraint id change
      writeIfAuto) :=
  lasting.bind (pausing_update fun _ => rfl) fun _ => writeIfAuto_pausing

theorem applyValue_pausing (id : VariableId) (value : α) :
    Keeps Pausing (applyValue id value) := by
  intro before result after yields
  cases applyValue_cases yields with
  | absent _ | unread _ _ | noNews _ _ _ => exact lasting.refl _
  | @held former _ outcome middle _ _ _ written =>
      have holding := Draft.Pausing.of_settings before
        (Solver.SameMarks.holdAt before.solver id value).settings
      have lettingGo := Draft.Pausing.of_settings middle
        (Solver.SameMarks.letGo middle.solver id former outcome).settings
      exact lasting.trans _ _ _
        (lasting.trans _ _ _ holding (writeIfAuto_pausing _ _ _ written))
        lettingGo

theorem setValue_pausing (handle : VariableHandle) (value : Option α) :
    Keeps Pausing (setValue handle value) := by
  refine lasting.bind (lasting.check _) fun id =>
      lasting.bind (lasting.ofOutcome _) fun value =>
    lasting.bind lasting.current fun solver => ?_
  split
  · exact lasting.bind (pausing_update fun _ => rfl) fun _ =>
      lasting.bind (pausing_note rfl) fun _ => lasting.pure _
  · exact applyValue_pausing id value

theorem lock_pausing (handle : VariableHandle) :
    Keeps Pausing (lock handle : Edit α _) := by
  refine lasting.bind (lasting.check _) fun contents => ?_
  split
  · exact lasting.pure _
  · exact lasting.bind (pausing_update fun solver =>
      (Solver.SameMarks.pin solver _).settings) fun _ =>
        undoing_pausing fun solver =>
          (Solver.SameMarks.release solver _).settings

theorem addConstraint_pausing (terms : List (Argument × Option α))
    (total : Option α) :
    Keeps Pausing (Task.addConstraint terms total).edit := by
  rw [Task.edit_addConstraint]
  exact lasting.bind (lasting.ofOutcome _) fun _ =>
      lasting.bind (lasting.check _) fun _ =>
    lasting.bind lasting.current fun _ =>
        lasting.bind (pausing_update fun _ => rfl) fun _ =>
      undoing_pausing fun _ => rfl

theorem takeValue_pausing (target : VariableId) (value : α)
    (rest : List (VariableId × α)) :
    Keeps Pausing (takeValue target value rest) :=
  lasting.bind (pausing_update fun _ => rfl) fun _ =>
    lasting.bind (pausing_note rfl) fun _ => applyValue_pausing target value

end Edit

open Edit in
open Draft.Pausing (lasting) in
/-- With automatic solving off, no other task begins a solve or puts one off. -/
theorem Task.pausing {task : Task α} (unordered : task.orders = false) :
    Edit.Keeps Draft.Pausing task.edit := by
  have still : ∀ {β : Type} {edit : Edit α β}, Keeps Draft.Pausing edit →
      Keeps Draft.Pausing edit.still := fun kept => lasting.bind kept fun _ =>
      lasting.pure _
  cases task with
  | setTerm handle argument coefficient =>
      exact lasting.bind (lasting.check _) fun _ =>
          lasting.bind (lasting.ofOutcome _) fun _ =>
        lasting.bind (lasting.check _) fun _ => modifyConstraint_pausing _ _
  | addTerm handle argument coefficient =>
      exact lasting.bind (lasting.check _) fun _ =>
          lasting.bind (lasting.check _) fun _ =>
        lasting.bind (lasting.ofOutcome _) fun _ => modifyConstraint_pausing _ _
  | removeTerm handle argument =>
      exact lasting.bind (lasting.check _) fun _ =>
          lasting.bind (lasting.check _) fun _ =>
        modifyConstraint_pausing _ _
  | setSum handle total =>
      exact lasting.bind (lasting.ofOutcome _) fun _ =>
          lasting.bind (lasting.check _) fun _ =>
        modifyConstraint_pausing _ _
  | lock handle => exact lock_pausing handle
  | setValue handle value => exact setValue_pausing handle value
  | addConstraint terms total => exact addConstraint_pausing terms total
  | addVariable name value =>
      exact still (lasting.bind (lasting.ofOutcome _) fun _ =>
          lasting.bind lasting.current fun _ =>
        lasting.bind (pausing_update fun _ => rfl) fun _ => lasting.pure _)
  | unlock handle =>
      exact still (lasting.bind (lasting.check _) fun _ =>
        pausing_update fun solver =>
          (Solver.SameMarks.release solver _).settings)
  | deleteVariable handle =>
      exact still (lasting.bind (lasting.check _) fun _ =>
        pausing_update fun solver =>
          (Solver.SameMarks.eraseVariable solver _).settings)
  | observe handle hook | deleteConstraint handle =>
      exact still (lasting.bind (lasting.check _) fun _ =>
        pausing_update fun _ => rfl)
  | forget id hook =>
      refine still (pausing_update fun solver => ?_)
      split
      · split <;> rfl
      · rfl
  | solve | isOverConstrained | isUnderConstrained | freeVariables =>
      cases unordered

/-! ## One solve -/

/-- A solve outside of rounds begins once, whether or not it succeeds, and is
not put off. -/
theorem Edit.writeSolution_begins {before after : Draft α}
    {result : Except (Failure α) (List VariableId)}
    (idle : before.solver.dispatching = false)
    (yields : writeSolution.Yields before result after) :
    ∃ rows columns notes,
      after.notes = notes ++ .assembled rows columns :: before.notes ∧
      ∀ note ∈ notes, note.solves = false := by
  simp only [writeSolution, reduction, yields_current_bind, idle,
    Bool.false_eq_true, if_false, yields_update_bind, bind_assoc,
    yields_note_bind, yields_ofOutcome_bind] at yields
  rcases yields with ⟨failure, _, _, rfl⟩ | ⟨tableau, _, rest⟩
  · exact ⟨_, _, [], rfl, by simp⟩
  · rw [yields_pure_bind] at rest
    split at rest
    · split at rest
      · rcases yields_throw_bind.mp rest with ⟨_, rfl⟩
        exact ⟨_, _, [_], rfl, by simp [Note.solves, Tableau.reductionNote]⟩
      · simp only [yields_note_bind, yields_update_bind, yields_pure] at rest
        rcases rest with ⟨_, rfl⟩
        exact ⟨_, _, [_, _, _],
          rfl, by simp [Note.solves, Tableau.reductionNote]⟩
    · simp only [yields_note_bind, yields_update_bind, yields_pure] at rest
      rcases rest with ⟨_, rfl⟩
      exact ⟨_, _, [_, _], rfl, by simp [Note.solves, Tableau.reductionNote]⟩

/-! ## Turns with automatic solving off -/

namespace Solver

/-- What a solver goes through while its automatic solving is off, with the
notes that it makes. -/
inductive Pauses : Solver α → List (Note α) → Solver α → Prop
  /-- Marks, or settings other than this one, change. -/
  | marked {former later : Solver α} (same : former.SameContents later)
      (off : later.settings.autoSolve = false) : Pauses former [] later
  /-- An operation asks the solver for something. -/
  | asked {former : Solver α} {task : Task α}
      (off : former.settings.autoSolve = false)
      (yields : task.edit.Yields ⟨former, []⟩ result draft) :
      Pauses former draft.notes.reverse draft.solver
  /-- An item of deferred work is taken up. -/
  | served {former : Solver α} {work : Edit α (List VariableId)}
      (off : former.settings.autoSolve = false)
      (next : former.nextDeferred = some work)
      (yields : work.Yields ⟨former, []⟩ result draft) :
      Pauses former draft.notes.reverse draft.solver
  | trans (first : Pauses former earlier middle)
      (second : Pauses middle rest later) :
      Pauses former (earlier ++ rest) later

end Solver

end LiveLinear
