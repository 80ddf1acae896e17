import LiveLinear.Proofs.Solver.Notifying

namespace LiveLinear

/-! # How far a variable strays unannounced

Writing a solution gives every variable its new value, and announces the
variables that have moved by more than the tolerance. So a variable that is not
announced may move all the same, by no more than the tolerance for each solution
that is written. -/

/-! ## Slots -/

namespace Table

variable {κ : Type u} {β : Type v} {γ : Type w} [DecidableEq κ]

/-- Where a table with the same keys has a value, the value that was there
before is found at the same place. -/
theorem exists_place_of_get? {table : Table κ β} {rewrite : Fin table.size → γ}
    {key : κ} {value : γ}
    (found : (⟨List.ofFn fun place => ((table.entry place).1, rewrite place)⟩ :
      Table κ γ).get? key = some value) :
    ∃ place, (table.entry place).1 = key ∧
      table.get? key = some (table.entry place).2 ∧ value = rewrite place := by
  rw [get?, Option.map_eq_some_iff] at found
  rcases found with ⟨⟨other, same⟩, found, rfl⟩
  rw [List.find?_eq_some_iff_getElem] at found
  rcases found with ⟨isKey, index, inRange, isThere, first⟩
  have inTable : index < table.size := by simpa using inRange
  simp only [List.getElem_ofFn, Prod.mk.injEq] at isThere first
  rcases isThere with ⟨rfl, rfl⟩
  refine ⟨⟨index, inTable⟩, of_decide_eq_true isKey, ?_, rfl⟩
  rw [get?, Option.map_eq_some_iff]
  refine ⟨table.entry ⟨index, inTable⟩, ?_, rfl⟩
  rw [List.find?_eq_some_iff_getElem]
  exact ⟨isKey, index, inTable, rfl, first⟩

end Table

variable {α : Type}

namespace Solver

theorem KeepsSlot.letGo [Scalar α] {id : VariableId} (solver : Solver α)
    (target : VariableId) (former : Variable α) (others : List VariableId) :
    solver.KeepsSlot id (solver.letGo target former (.ok others)) := by
  simp only [Solver.letGo]
  split
  · exact refl solver
  · exact release solver target

theorem exists_column_of_storePoint [Scalar α] {solver : Solver α}
    {target : Vector α solver.unknowns.size} {id : VariableId}
    {later : Variable α}
    (found : (solver.storePoint target).unknowns.get? id = some later) :
    ∃ column, (solver.unknowns.entry column).1 = id ∧
      solver.unknowns.get? id = some (solver.unknowns.entry column).2 ∧
      later =
        { (solver.unknowns.entry column).2 with value := target[column] } :=
  Table.exists_place_of_get? found

end Solver

/-! ## Drafts -/

theorem Note.Solution.countP_isSolved {notes : List (Note α)}
    (solution : Note.Solution notes) :
    notes.countP Note.isSolved = 1 := by
  cases solution <;> rfl

namespace Draft

/-- What becomes of a variable while a draft is edited. If it is there
afterwards, and is not new, it was there before, with the hook that it has.
Unless it is `announced`, its value is off the one that it had by no more than
the tolerance for each solution that has been written. -/
structure Trails (id : VariableId) (announced : Prop) (before after : Draft ℚ) :
    Prop where
  settings : after.solver.settings = before.solver.settings
  nextVariable : before.solver.nextVariable ≤ after.solver.nextVariable
  traced : ∃ notes, after.notes = notes ++ before.notes ∧
    ∀ later, id < before.solver.nextVariable →
      after.solver.unknowns.get? id = some later → ∃ former,
        before.solver.unknowns.get? id = some former ∧
        later.hook = former.hook ∧
        (¬announced → ∀ tolerance,
          before.solver.settings.tolerance = some tolerance →
          |former.value - later.value| ≤ tolerance * notes.countP Note.isSolved)

namespace Trails

variable {before middle after : Draft ℚ} {id : VariableId}
  {announced soon late : Prop}

theorem mono (trails : before.Trails id soon after) (weaker : soon → late) :
    before.Trails id late after := by
  rcases trails.traced with ⟨notes, isNotes, traced⟩
  refine ⟨trails.settings, trails.nextVariable, notes, isNotes,
    fun later old found => ?_⟩
  rcases traced later old found with ⟨former, isFormer, hook, near⟩
  exact ⟨former, isFormer, hook, fun silent => near fun early =>
    silent (weaker early)⟩

theorem noted {solver : Solver ℚ} (slot : before.solver.KeepsSlot id solver)
    (notes : List (Note ℚ)) (unsolved : notes.countP Note.isSolved = 0) :
    before.Trails id announced ⟨solver, notes ++ before.notes⟩ := by
  refine ⟨slot.settings, slot.nextVariable, notes, rfl,
    fun later old found => ?_⟩
  rcases slot.kept later old found with ⟨former, isFormer, value, hook⟩
  refine ⟨former, isFormer, hook, fun _ tolerance _ => ?_⟩
  rw [value, sub_self, abs_zero, unsolved, Nat.cast_zero, mul_zero]

theorem of_slot {solver : Solver ℚ} (slot : before.solver.KeepsSlot id solver) :
    before.Trails id announced ⟨solver, before.notes⟩ :=
  noted slot [] rfl

theorem refl (draft : Draft ℚ) : draft.Trails id announced draft :=
  of_slot (.refl _)

theorem trans (left : before.Trails id soon middle)
    (right : middle.Trails id late after) :
    before.Trails id (soon ∨ late) after := by
  rcases left.traced with ⟨earlier, isEarlier, before_⟩
  rcases right.traced with ⟨later, isLater, after_⟩
  refine ⟨right.settings.trans left.settings,
    Nat.le_trans left.nextVariable right.nextVariable, later ++ earlier, by
    rw [isLater, isEarlier, List.append_assoc], fun last old found => ?_⟩
  have older : id < middle.solver.nextVariable :=
    Int.lt_of_lt_of_le old (Int.ofNat_le.mpr left.nextVariable)
  rcases after_ last older found with ⟨between, isBetween, sameHook, nearLast⟩
  rcases before_ between old isBetween with ⟨first, isFirst, hook, nearFirst⟩
  refine ⟨first, isFirst, sameHook.trans hook, fun silent tolerance given => ?_⟩
  have toBetween := nearFirst (fun early => silent (.inl early)) tolerance given
  have toLast := nearLast (fun late => silent (.inr late)) tolerance
    (left.settings ▸ given)
  calc |first.value - last.value|
      ≤ |first.value - between.value| + |between.value - last.value| :=
      abs_sub_le _ _ _
    _ ≤ tolerance * (later ++ earlier).countP Note.isSolved := by
        rw [List.countP_append, Nat.cast_add]
        linarith

theorem lasting : Edit.Lasting (Trails id False) :=
  ⟨refl, fun _ _ _ left right => (left.trans right).mono (or_self False).mp⟩

end Trails

end Draft

/-! ## Edits -/

namespace Edit

open Draft (Trails)
open Draft.Trails (lasting)

variable {β : Type} {id : VariableId} {before after : Draft ℚ}

def Trailing (id : VariableId) (edit : Edit ℚ (List VariableId)) : Prop :=
  ∀ before moved after, edit.Yields before (.ok moved) after →
    before.Trails id (id ∈ moved) after

theorem trailing_bind {edit : Edit ℚ β} {next : β → Edit ℚ (List VariableId)}
    (first : Keeps (Trails id False) edit)
    (later : ∀ value, Trailing id (next value)) :
    Trailing id (edit >>= next) := by
  intro before moved after yields
  rcases yields_bind_ok.mp yields with ⟨value, middle, done, rest⟩
  exact ((first _ _ _ done).trans (later value _ _ _ rest)).mono (false_or _).mp

theorem trailing_of_keeps {edit : Edit ℚ (List VariableId)}
    (kept : Keeps (Trails id False) edit) :
    Trailing id edit :=
  fun _ _ _ yields => (kept _ _ _ yields).mono False.elim

theorem trailing_still {edit : Edit ℚ β} (kept : Keeps (Trails id False) edit) :
    Trailing id edit.still :=
  trailing_of_keeps (lasting.bind kept fun _ => lasting.pure [])

theorem trailing_undoing {edit : Edit ℚ (List VariableId)}
    {undo : Solver ℚ → Solver ℚ} (trailing : Trailing id edit) :
    Trailing id (edit.undoing undo) := by
  intro before moved after yields
  rcases yields_undoing.mp yields with ⟨middle, done, rfl⟩
  exact trailing _ _ _ done

theorem update_trails {change : Solver ℚ → Solver ℚ}
    (slot : ∀ solver : Solver ℚ, solver.KeepsSlot id (change solver)) :
    Keeps (Trails id False) (update change) :=
  keeps_update fun draft => Trails.of_slot (slot draft.solver)

theorem note_trails {note : Note ℚ} (unsolved : note.isSolved = false) :
    Keeps (Trails id False) (Edit.note note) :=
  keeps_note fun _ => Trails.noted (.refl _) [note] (by simp [unsolved])

theorem reduction_trails (solver : Solver ℚ) :
    Keeps (Trails id False) (reduction solver) :=
  lasting.bind (note_trails rfl) fun _ =>
      lasting.bind (lasting.ofOutcome _) fun _ =>
    lasting.bind (note_trails rfl) fun _ => lasting.pure _

/-- A solution announces what it moves by more than the tolerance. -/
theorem writeSolution_trailing : Trailing id (writeSolution : Edit ℚ _) := by
  intro before moved after yields
  rcases writeSolution_cases yields with ⟨writes, notes, isNotes, concern⟩
  generalize isLater : after.solver = later at writes
  have isAfter : after = ⟨later, notes ++ before.notes⟩ := by
    rw [← isLater, ← isNotes]
  cases writes with
  | deferred busy =>
      rcases concern with ⟨_, rfl⟩ | ⟨idle, _⟩
      · rw [isAfter]
        refine .noted ?_ [.solveDeferred] rfl
        exact .of_unknowns rfl rfl rfl
      · cases busy.symm.trans idle
  | @written tableau idle assembled _ =>
      rcases (writeSolution_solution idle yields).2 with
        ⟨solution, isSolution, solved⟩
      refine ⟨isLater ▸ rfl, isLater ▸ Nat.le_refl _, solution.reverse,
        isSolution, ?_⟩
      intro later _ found
      rw [isLater] at found
      rcases Solver.exists_column_of_storePoint found with
        ⟨column, isColumn, isFormer, rfl⟩
      refine ⟨_, isFormer, rfl, fun silent tolerance given => ?_⟩
      have isTolerance := (Solver.assemble_eq_ok assembled).2.1
      cases given.symm.trans isTolerance
      have small : Scalar.significant tableau.tolerance
          ((tableau.reduce.solve before.solver.point)[column] -
            (before.solver.unknowns.entry column).2.value) = false := by
        by_contra large
        refine silent
          (List.mem_filterMap.mpr ⟨column, List.mem_finRange column, ?_⟩)
        rw [if_pos (eq_true_of_ne_false large), isColumn]
      rw [List.countP_reverse, solved.countP_isSolved, Nat.cast_one, mul_one,
        abs_sub_comm]
      exact Scalar.not_significant_iff.mp small

theorem writeIfAuto_trailing : Trailing id (writeIfAuto : Edit ℚ _) := by
  refine trailing_bind lasting.current fun solver => ?_
  split
  · exact writeSolution_trailing
  · exact trailing_of_keeps (lasting.pure [])

theorem trailing_update_bind {change : Solver ℚ → Solver ℚ}
    (slot : ∀ solver : Solver ℚ, solver.KeepsSlot id (change solver))
    {next : Edit ℚ (List VariableId)} (later : Trailing id next) :
    Trailing id (update change >>= fun _ => next) :=
  trailing_bind (update_trails slot) fun _ => later

/-- Holding a variable at a value moves no other one. -/
theorem holdAt_trails (draft : Draft ℚ) (target : VariableId) (value : ℚ)
    (id : VariableId) :
    draft.Trails id (id = target)
      { draft with solver := draft.solver.holdAt target value } := by
  have stored : draft.Trails id (id = target)
      { draft with solver := draft.solver.storeValue target value } := by
    refine ⟨rfl, Nat.le_refl _, [], rfl, fun later _ found => ?_⟩
    rw [Solver.storeValue, Solver.modifyVariable, Table.get?_modify] at found
    split at found
    · next isTarget =>
        rcases Option.map_eq_some_iff.mp found with ⟨former, isFormer, rfl⟩
        exact ⟨former, isFormer, rfl, fun other => absurd isTarget other⟩
    · exact ⟨later, found, rfl, fun _ tolerance _ => by simp⟩
  have held :
      Trails id False
        { draft with solver := draft.solver.storeValue target value }
      { draft with solver := draft.solver.holdAt target value } :=
    .of_slot ((Solver.KeepsSlot.release _ target).trans (.pin _ target))
  exact (stored.trans held).mono (or_false _).mp

/-- A variable that is given a value is announced, if the value is news. -/
theorem applyValue_trailing (target : VariableId) (value : ℚ) :
    Trailing id (applyValue target value) := by
  intro before moved after yields
  have applies := applyValue_cases yields
  generalize isResult : Except.ok moved = result at applies
  cases applies with
  | absent _ | noNews _ _ _ => exact .refl _
  | unread _ _ => cases isResult
  | @held former tolerance outcome middle _ _ _ written =>
      cases outcome with
      | error failure => cases isResult
      | ok others =>
          cases isResult
          have held := holdAt_trails before target value id
          have wrote : Trails id (id ∈ others) _ middle :=
            writeIfAuto_trailing _ _ _ written
          have ends : middle.Trails id False
              { middle with
                solver := middle.solver.letGo target former (.ok others) } :=
            .of_slot (.letGo middle.solver target former others)
          refine ((held.trans wrote).trans ends).mono ?_
          rintro ((isTarget | isOther) | impossible)
          · simp [isTarget]
          · by_cases isTarget : id = target
            · simp [isTarget]
            · simp [isOther, isTarget]
          · exact impossible.elim

theorem setValue_trailing (handle : VariableHandle) (value : Option ℚ) :
    Trailing id (setValue handle value) := by
  refine trailing_bind (lasting.check _) fun target => ?_
  refine trailing_bind (lasting.ofOutcome _) fun value => ?_
  refine trailing_bind lasting.current fun solver => ?_
  split
  · have noted : Trailing id (do
        note (.valueQueued target value)
        return [] : Edit ℚ (List VariableId)) :=
      trailing_of_keeps (lasting.bind (note_trails rfl) fun _ => lasting.pure _)
    refine trailing_update_bind (fun solver => ?_) noted
    exact .of_unknowns rfl rfl rfl
  · exact applyValue_trailing target value

theorem lock_trailing (handle : VariableHandle) :
    Trailing id (lock handle : Edit ℚ _) := by
  refine trailing_bind (lasting.check _) fun contents => ?_
  split
  · exact trailing_of_keeps (lasting.pure _)
  · exact trailing_update_bind (fun solver => .pin solver handle.id)
      (trailing_undoing writeIfAuto_trailing)

theorem addConstraint_trailing (terms : List (Argument × Option ℚ))
    (total : Option ℚ) :
    Trailing id (Task.addConstraint terms total).edit := by
  rw [Task.edit_addConstraint]
  refine trailing_bind (lasting.ofOutcome _) fun sum => ?_
  refine trailing_bind (lasting.check _) fun stored => ?_
  refine trailing_bind lasting.current fun solver => ?_
  refine trailing_update_bind (fun solver => ?_)
    (trailing_undoing writeIfAuto_trailing)
  exact .of_unknowns rfl rfl rfl

theorem trailing_modifyConstraint (held : ConstraintId)
    (change : Constraint ℚ → Constraint ℚ) :
    Trailing id (do
      update fun solver => solver.modifyConstraint held change
      writeIfAuto) := by
  refine trailing_update_bind (fun solver => ?_) writeIfAuto_trailing
  exact .of_unknowns rfl rfl rfl

theorem forget_trails {target : VariableId} (hook : Option HookId)
    (other : target ≠ id) :
    Keeps (Trails id False) (forget target hook : Edit ℚ Unit) := by
  refine update_trails fun solver => ?_
  split
  · split
    · exact .modifyVariable solver target fun same => absurd same.symm other
    · exact .refl solver
  · exact .refl solver

end Edit

namespace Task

open Edit
open Draft.Trails (lasting)

def Spares (id : VariableId) : Task ℚ → Prop
  | .observe handle _ => handle.id ≠ id
  | .forget target _ => target ≠ id
  | _ => True

theorem edit_trailing {id : VariableId} (task : Task ℚ)
    (spares : task.Spares id) :
    Trailing id task.edit := by
  cases task with
  | solve => exact writeSolution_trailing
  | addVariable name value =>
      refine trailing_still (lasting.bind (lasting.ofOutcome _) fun value => ?_)
      refine lasting.bind lasting.current fun _ => lasting.bind ?_ fun _ =>
        lasting.pure _
      exact update_trails fun solver => .insertVariable solver name value
  | setValue handle value => exact setValue_trailing handle value
  | lock handle => exact lock_trailing handle
  | unlock handle =>
      exact trailing_still (lasting.bind (lasting.check _) fun _ =>
        update_trails fun _ => .release _ _)
  | deleteVariable handle =>
      exact trailing_still (lasting.bind (lasting.check _) fun _ =>
        update_trails fun _ => .eraseVariable _ _)
  | observe handle hook =>
      exact trailing_still (lasting.bind (lasting.check _) fun _ =>
        update_trails fun solver => .modifyVariable solver handle.id fun same =>
          absurd same.symm spares)
  | forget target hook => exact trailing_still (forget_trails hook spares)
  | addConstraint terms total => exact addConstraint_trailing terms total
  | setTerm handle argument coefficient =>
      exact trailing_bind (lasting.check _) fun _ =>
          trailing_bind (lasting.ofOutcome _) fun _ =>
        trailing_bind (lasting.check _) fun _ => trailing_modifyConstraint _ _
  | addTerm handle argument coefficient =>
      exact trailing_bind (lasting.check _) fun _ =>
          trailing_bind (lasting.check _) fun _ =>
        trailing_bind (lasting.ofOutcome _) fun _ =>
          trailing_modifyConstraint _ _
  | removeTerm handle argument =>
      exact trailing_bind (lasting.check _) fun _ =>
          trailing_bind (lasting.check _) fun _ =>
        trailing_modifyConstraint _ _
  | setSum handle total =>
      exact trailing_bind (lasting.ofOutcome _) fun _ =>
          trailing_bind (lasting.check _) fun _ =>
        trailing_modifyConstraint _ _
  | deleteConstraint handle =>
      exact trailing_still (lasting.bind (lasting.check _) fun _ =>
        update_trails fun _ => .eraseConstraint _ _)
  | isOverConstrained | isUnderConstrained | freeVariables =>
      exact trailing_still (lasting.bind lasting.current fun solver =>
        lasting.bind (reduction_trails solver) fun _ => lasting.pure _)

end Task

theorem Solver.trailing_of_nextDeferred {id : VariableId} {solver : Solver ℚ}
    {work : Edit ℚ (List VariableId)} (next : solver.nextDeferred = some work) :
    Edit.Trailing id work := by
  open Edit in
  rcases nextDeferred_cases next with ⟨target, value, rest, _, rfl⟩
    | ⟨_, _, rfl⟩
  · refine trailing_update_bind (fun solver => ?_)
      (trailing_bind (note_trails (by rfl)) fun _ =>
        applyValue_trailing target value)
    exact .of_unknowns rfl rfl rfl
  · exact trailing_bind (note_trails (by rfl)) fun _ => writeSolution_trailing

end LiveLinear
