import LiveLinear.Proofs.Solver.Trailing

namespace LiveLinear

/-! # How variables come to hooks

A variable has at most one hook. It gets one by being registered with it and in
no other way, whatever else is done to its solver. -/

variable {α : Type}

namespace Solver

/-- The hook that is registered with a variable, if the variable is there and
has one. -/
def hookOf (solver : Solver α) (id : VariableId) : Option HookId :=
  (solver.unknowns.get? id).bind Variable.hook

def GainsNoHook (id : VariableId) (before after : Solver α) : Prop :=
  ∀ hook, after.hookOf id = some hook → before.hookOf id = some hook

namespace GainsNoHook

variable {before middle after : Solver α} {id : VariableId}

theorem of_unknowns (unknowns : after.unknowns = before.unknowns) :
    before.GainsNoHook id after := by
  intro hook present
  rw [hookOf, unknowns] at present
  exact present

theorem refl (solver : Solver α) : solver.GainsNoHook id solver :=
  of_unknowns rfl

theorem trans (left : before.GainsNoHook id middle)
    (right : middle.GainsNoHook id after) :
    before.GainsNoHook id after :=
  fun hook present => left hook (right hook present)

theorem of_slots
    (slots : ∀ later, after.unknowns.get? id = some later →
      ∃ former, before.unknowns.get? id = some former ∧
        later.hook = former.hook) :
    before.GainsNoHook id after := by
  intro hook present
  rcases Option.bind_eq_some_iff.mp present with ⟨later, found, isHook⟩
  rcases slots later found with ⟨former, isFormer, same⟩
  exact Option.bind_eq_some_iff.mpr ⟨former, isFormer, same.symm.trans isHook⟩

theorem insertVariable (solver : Solver α) (name : Option String) (value : α) :
    solver.GainsNoHook id (solver.insertVariable name value) := by
  intro hook present
  rw [hookOf, Solver.insertVariable, Table.get?_put] at present
  split at present
  · cases present
  · exact present

theorem modifyVariable (solver : Solver α) (target : VariableId)
    {change : Variable α → Variable α}
    (same : ∀ contents, (change contents).hook = contents.hook) :
    solver.GainsNoHook id (solver.modifyVariable target change) := by
  refine of_slots fun later found => ?_
  rw [Solver.modifyVariable, Table.get?_modify] at found
  split at found
  · rcases Option.map_eq_some_iff.mp found with ⟨former, isFormer, rfl⟩
    exact ⟨former, isFormer, same former⟩
  · exact ⟨later, found, rfl⟩

theorem storeValue (solver : Solver α) (target : VariableId) (value : α) :
    solver.GainsNoHook id (solver.storeValue target value) :=
  modifyVariable solver target fun _ => rfl

theorem pin [One α] (solver : Solver α) (target : VariableId) :
    solver.GainsNoHook id (solver.pin target) := by
  unfold Solver.pin
  split
  · exact refl solver
  · have inserted : ∀ constraint,
        solver.GainsNoHook id (solver.insertConstraint constraint) :=
      fun _ => of_unknowns rfl
    exact (inserted _).trans (modifyVariable _ target fun _ => rfl)

theorem release (solver : Solver α) (target : VariableId) :
    solver.GainsNoHook id (solver.release target) := by
  unfold Solver.release
  split
  · have unlocked : solver.GainsNoHook id
        (solver.modifyVariable target fun contents =>
          { contents with lock := none }) :=
      modifyVariable solver target fun _ => rfl
    exact unlocked.trans (of_unknowns rfl)
  · exact refl solver

theorem eraseVariable (solver : Solver α) (target : VariableId) :
    solver.GainsNoHook id (solver.eraseVariable target) := by
  have erased :
      (solver.release target).GainsNoHook id (solver.eraseVariable target) := by
    refine of_slots fun later found => ?_
    simp only [Solver.eraseVariable, Table.get?_erase] at found
    split at found
    · cases found
    · exact ⟨later, found, rfl⟩
  exact (release solver target).trans erased

theorem eraseConstraint (solver : Solver α) (held : ConstraintId) :
    solver.GainsNoHook id (solver.eraseConstraint held) := by
  refine of_slots fun later found => ?_
  rw [Solver.eraseConstraint, Table.get?_map, Option.map_eq_some_iff] at found
  rcases found with ⟨former, isFormer, rfl⟩
  refine ⟨former, isFormer, ?_⟩
  split <;> rfl

theorem storePoint [Scalar α] (solver : Solver α)
    (target : Vector α solver.unknowns.size) :
    solver.GainsNoHook id (solver.storePoint target) := by
  refine of_slots fun later found => ?_
  rcases exists_column_of_storePoint found with ⟨column, _, isFormer, rfl⟩
  exact ⟨_, isFormer, rfl⟩

theorem holdAt [Scalar α] (solver : Solver α) (target : VariableId)
    (value : α) :
    solver.GainsNoHook id (solver.holdAt target value) :=
  ((storeValue solver target value).trans (release _ target)).trans
    (pin _ target)

theorem letGo [Scalar α] (solver : Solver α) (target : VariableId)
    (former : Variable α) (outcome : Except (Failure α) (List VariableId)) :
    solver.GainsNoHook id (solver.letGo target former outcome) := by
  have released :
      solver.GainsNoHook id
        ((solver.storeValue target former.value).release target) :=
    (storeValue solver target former.value).trans (release _ target)
  have cleaned : ∀ undone : Solver α, solver.GainsNoHook id undone →
      solver.GainsNoHook id (if former.lock.isSome then undone
        else undone.release target) := by
    intro undone gains
    split
    · exact gains
    · exact gains.trans (release undone target)
  apply cleaned
  split
  · dsimp only
    split
    · exact released.trans (pin _ target)
    · exact released
  · exact refl solver

theorem setHook_none (solver : Solver α) (target : VariableId) :
    solver.GainsNoHook id (solver.setHook target none) := by
  intro hook present
  rw [hookOf, Solver.setHook, Solver.modifyVariable, Table.get?_modify]
    at present
  split at present
  · rcases Option.bind_eq_some_iff.mp present with ⟨later, found, isHook⟩
    rcases Option.map_eq_some_iff.mp found with ⟨_, _, rfl⟩
    cases isHook
  · exact present

theorem setHook_of_ne (solver : Solver α) {target : VariableId}
    (hook : Option HookId) (other : target ≠ id) :
    solver.GainsNoHook id (solver.setHook target hook) := by
  intro mine present
  rw [hookOf, Solver.setHook, Solver.modifyVariable, Table.get?_modify,
    if_neg (Ne.symm other)] at present
  exact present

end GainsNoHook

variable {solver after : Solver α} {id : VariableId}

theorem Writes.gainsNoHook [Scalar α]
    {result : Except (Failure α) (List VariableId)}
    (writes : solver.Writes result after) :
    solver.GainsNoHook id after := by
  cases writes with
  | deferred _ | unassembled _ _ | refused _ _ _ _ => exact .of_unknowns rfl
  | @written tableau _ _ _ =>
      exact (GainsNoHook.storePoint solver
        (tableau.reduce.solve solver.point)).trans (.of_unknowns rfl)

theorem solver_of_variableAt {handle : VariableHandle} {contents : Variable α}
    (live : solver.variableAt handle = .ok contents) :
    handle.solver = solver.id := by
  unfold variableAt at live
  split at live
  · cases live
  · next own => exact not_not.mp own

theorem hookOf_setHook {contents : Variable α}
    (found : solver.unknowns.get? id = some contents) (hook : Option HookId) :
    (solver.setHook id hook).hookOf id = hook := by
  rw [hookOf, setHook, modifyVariable, Table.get?_modify, if_pos rfl, found]
  rfl

end Solver

/-! ## Edits -/

def Draft.GainsNoHook (id : VariableId) (before after : Draft α) : Prop :=
  before.solver.GainsNoHook id after.solver

namespace Edit

open Solver (GainsNoHook)

variable {id : VariableId}

theorem lasting_gainsNoHook :
    Lasting (Draft.GainsNoHook id : Draft α → Draft α → Prop) :=
  ⟨fun _ => .refl _, fun _ _ _ left right => left.trans right⟩

theorem update_gainsNoHook {change : Solver α → Solver α}
    (gains : ∀ solver : Solver α, solver.GainsNoHook id (change solver)) :
    Keeps (Draft.GainsNoHook id) (update change) :=
  keeps_update fun draft => gains draft.solver

theorem forget_gainsNoHook (target : VariableId) (hook : Option HookId) :
    Keeps (Draft.GainsNoHook id) (forget target hook : Edit α Unit) := by
  refine update_gainsNoHook fun solver => ?_
  split
  · split
    · exact .setHook_none solver target
    · exact .refl solver
  · exact .refl solver

theorem yields_forget_of_stale {solver : Solver α} {target : VariableId}
    {hook : Option HookId}
    (stale : ∀ mine, hook = some mine → solver.hookOf target ≠ some mine) :
    (forget target hook).Yields ⟨solver, []⟩ (.ok ()) ⟨solver, []⟩ := by
  refine yields_update.mpr ⟨rfl, ?_⟩
  congr 1
  split
  · next mine present isPresent =>
      have different : mine ≠ present := by
        rintro rfl
        exact stale mine rfl isPresent
      rw [if_neg different]
  · rfl

theorem yields_observe {handle : VariableHandle} {hook : Option HookId}
    {before after : Draft α} {result : Except (Failure α) Unit} :
    (observe handle hook).Yields before result after ↔
      (∃ failure, before.solver.variableAt handle = .error failure ∧
        result = .error failure ∧ after = before) ∨
      ∃ contents, before.solver.variableAt handle = .ok contents ∧
        result = .ok () ∧
        after =
          { before with solver := before.solver.setHook handle.id hook } := by
  simp only [observe, yields_check_bind, yields_update]

theorem gainsNoHook_update_bind {change : Solver α → Solver α}
    (gains : ∀ solver : Solver α, solver.GainsNoHook id (change solver))
    {next : Edit α (List VariableId)}
    (later : Keeps (Draft.GainsNoHook id) next) :
    Keeps (Draft.GainsNoHook id) (update change >>= fun _ => next) :=
  lasting_gainsNoHook.bind (update_gainsNoHook gains) fun _ => later

section Solving

variable [Scalar α]

theorem reduction_gainsNoHook (solver : Solver α) :
    Keeps (Draft.GainsNoHook id) (reduction solver) := by
  intro before result after yields
  rw [Draft.GainsNoHook, (reduction_cases yields).1]
  exact .refl _

theorem writeSolution_gainsNoHook :
    Keeps (Draft.GainsNoHook id) (writeSolution : Edit α _) :=
  fun _ _ _ yields => (writeSolution_cases yields).1.gainsNoHook

theorem writeIfAuto_gainsNoHook :
    Keeps (Draft.GainsNoHook id) (writeIfAuto : Edit α _) := by
  intro before result after yields
  rcases writeIfAuto_cases yields with ⟨_, writes⟩ | ⟨_, _, rfl⟩
  · exact writes.gainsNoHook
  · exact .refl _

theorem applyValue_gainsNoHook (target : VariableId) (value : α) :
    Keeps (Draft.GainsNoHook id) (applyValue target value) := by
  intro before result after yields
  cases applyValue_cases yields with
  | absent _ | unread _ _ | noNews _ _ _ => exact .refl _
  | @held former _ outcome middle _ _ _ written =>
      have held :
          before.solver.GainsNoHook id (before.solver.holdAt target value) :=
        .holdAt _ _ _
      exact (held.trans (writeIfAuto_gainsNoHook _ _ _ written)).trans
        (.letGo middle.solver target former outcome)

theorem gainsNoHook_modifyConstraint (held : ConstraintId)
    (change : Constraint α → Constraint α) :
    Keeps (Draft.GainsNoHook id) (do
      update fun solver => solver.modifyConstraint held change
      writeIfAuto) := by
  refine gainsNoHook_update_bind (fun solver => ?_) writeIfAuto_gainsNoHook
  exact .of_unknowns rfl

theorem setValue_gainsNoHook (handle : VariableHandle) (value : Option α) :
    Keeps (Draft.GainsNoHook id) (setValue handle value) := by
  have lasting : Lasting (Draft.GainsNoHook id : Draft α → Draft α → Prop) :=
    lasting_gainsNoHook
  refine lasting.bind (lasting.check _) fun target => ?_
  refine lasting.bind (lasting.ofOutcome _) fun value => ?_
  refine lasting.bind lasting.current fun solver => ?_
  split
  · have noted : Keeps (Draft.GainsNoHook id) (do
        note (.valueQueued target value)
        return [] : Edit α (List VariableId)) :=
      lasting.bind (keeps_note fun _ => GainsNoHook.refl _) fun _ =>
        lasting.pure _
    refine gainsNoHook_update_bind (fun solver => ?_) noted
    exact .of_unknowns rfl
  · exact applyValue_gainsNoHook target value

theorem lock_gainsNoHook (handle : VariableHandle) :
    Keeps (Draft.GainsNoHook id) (lock handle : Edit α _) := by
  have lasting : Lasting (Draft.GainsNoHook id : Draft α → Draft α → Prop) :=
    lasting_gainsNoHook
  refine lasting.bind (lasting.check _) fun contents => ?_
  split
  · exact lasting.pure _
  · refine gainsNoHook_update_bind (fun solver => .pin solver handle.id) ?_
    exact lasting.undoing (fun _ => GainsNoHook.release _ _)
      writeIfAuto_gainsNoHook

theorem addConstraint_gainsNoHook (terms : List (Argument × Option α))
    (total : Option α) :
    Keeps (Draft.GainsNoHook id) (Task.addConstraint terms total).edit := by
  have lasting : Lasting (Draft.GainsNoHook id : Draft α → Draft α → Prop) :=
    lasting_gainsNoHook
  rw [Task.edit_addConstraint]
  refine lasting.bind (lasting.ofOutcome _) fun sum => ?_
  refine lasting.bind (lasting.check _) fun stored => ?_
  refine lasting.bind lasting.current fun solver => ?_
  refine gainsNoHook_update_bind (fun solver => ?_)
    (lasting.undoing (fun draft => ?_) writeIfAuto_gainsNoHook)
  · exact .of_unknowns rfl
  · exact GainsNoHook.of_unknowns rfl

end Solving

end Edit

namespace Task

open Edit

variable [Scalar α]

def Hooks (id : VariableId) : Task α → Prop
  | .observe handle hook => handle.id = id ∧ hook ≠ none
  | _ => False

theorem edit_gainsNoHook {id : VariableId} (task : Task α)
    (other : ¬task.Hooks id) :
    Keeps (Draft.GainsNoHook id) task.edit := by
  have lasting : Lasting (Draft.GainsNoHook id : Draft α → Draft α → Prop) :=
    lasting_gainsNoHook
  have still : ∀ {β : Type} {edit : Edit α β},
      Keeps (Draft.GainsNoHook id) edit →
      Keeps (Draft.GainsNoHook id) edit.still :=
    fun kept => lasting.bind kept fun _ => lasting.pure []
  cases task with
  | solve => exact writeSolution_gainsNoHook
  | addVariable name value =>
      refine still (lasting.bind (lasting.ofOutcome _) fun value => ?_)
      refine lasting.bind lasting.current fun _ => lasting.bind ?_ fun _ =>
        lasting.pure _
      exact update_gainsNoHook fun solver => .insertVariable solver name value
  | setValue handle value => exact setValue_gainsNoHook handle value
  | lock handle => exact lock_gainsNoHook handle
  | unlock handle =>
      exact still (lasting.bind (lasting.check _) fun _ => update_gainsNoHook
        fun solver => .release solver handle.id)
  | deleteVariable handle =>
      exact still (lasting.bind (lasting.check _) fun _ => update_gainsNoHook
        fun solver => .eraseVariable solver handle.id)
  | observe handle hook =>
      refine still (lasting.bind (lasting.check _) fun _ =>
        update_gainsNoHook fun solver => ?_)
      by_cases isIt : handle.id = id
      · have nobody : hook = none := by
          by_contra some
          exact other ⟨isIt, some⟩
        rw [nobody]
        exact .setHook_none solver handle.id
      · exact .setHook_of_ne solver hook isIt
  | forget target hook => exact still (forget_gainsNoHook target hook)
  | addConstraint terms total => exact addConstraint_gainsNoHook terms total
  | setTerm handle argument coefficient =>
      exact lasting.bind (lasting.check _) fun _ =>
          lasting.bind (lasting.ofOutcome _) fun _ =>
        lasting.bind (lasting.check _) fun _ => gainsNoHook_modifyConstraint _ _
  | addTerm handle argument coefficient =>
      exact lasting.bind (lasting.check _) fun _ =>
          lasting.bind (lasting.check _) fun _ =>
        lasting.bind (lasting.ofOutcome _) fun _ =>
          gainsNoHook_modifyConstraint _ _
  | removeTerm handle argument =>
      exact lasting.bind (lasting.check _) fun _ =>
          lasting.bind (lasting.check _) fun _ =>
        gainsNoHook_modifyConstraint _ _
  | setSum handle total =>
      exact lasting.bind (lasting.ofOutcome _) fun _ =>
          lasting.bind (lasting.check _) fun _ =>
        gainsNoHook_modifyConstraint _ _
  | deleteConstraint handle =>
      exact still (lasting.bind (lasting.check _) fun _ => update_gainsNoHook
        fun solver => .eraseConstraint solver handle.id)
  | isOverConstrained | isUnderConstrained | freeVariables =>
      exact still (lasting.bind lasting.current fun solver =>
        lasting.bind (reduction_gainsNoHook solver) fun _ => lasting.pure _)

end Task

theorem Solver.gainsNoHook_of_nextDeferred [Scalar α] {id : VariableId}
    {solver : Solver α} {work : Edit α (List VariableId)}
    (next : solver.nextDeferred = some work) :
    Edit.Keeps (Draft.GainsNoHook id) work := by
  open Edit in
  have noted : ∀ note : Note α, Keeps (Draft.GainsNoHook id) (Edit.note note) :=
    fun _ => keeps_note fun _ => GainsNoHook.refl _
  rcases nextDeferred_cases next with ⟨target, value, rest, _, rfl⟩
    | ⟨_, _, rfl⟩
  · refine gainsNoHook_update_bind (fun solver => ?_)
      (lasting_gainsNoHook.bind (noted _) fun _ =>
        applyValue_gainsNoHook target value)
    exact .of_unknowns rfl
  · exact lasting_gainsNoHook.bind (noted _) fun _ => writeSolution_gainsNoHook

end LiveLinear
