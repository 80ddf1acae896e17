import LiveLinear.Proofs.Solver.Deferred
import LiveLinear.Proofs.Solver.Evolution
import LiveLinear.Proofs.Solver.Task

namespace LiveLinear

/-! # The pieces of a task

Every task is a sequence of small pieces, however it ends, and moves variables
with its last piece only. What goes on from piece to piece holds of every
task. -/

variable {α : Type}

/-! ## Keeping values -/

namespace Solver

/-- The settings stay, and a variable that is there afterwards, and is not new,
was there before, with the value and the hook that it has. -/
structure KeepsSlot (id : VariableId) (before after : Solver α) : Prop where
  settings : after.settings = before.settings
  nextVariable : before.nextVariable ≤ after.nextVariable
  kept (later : Variable α) (old : id < before.nextVariable)
    (found : after.unknowns.get? id = some later) :
    ∃ former, before.unknowns.get? id = some former ∧
      later.value = former.value ∧ later.hook = former.hook

namespace KeepsSlot

variable {before middle after : Solver α} {id : VariableId}

theorem of_unknowns (settings : after.settings = before.settings)
    (unknowns : after.unknowns = before.unknowns)
    (nextVariable : after.nextVariable = before.nextVariable) :
    before.KeepsSlot id after :=
  ⟨settings, Nat.le_of_eq nextVariable.symm,
    fun later _ found => ⟨later, unknowns ▸ found, rfl, rfl⟩⟩

theorem refl (solver : Solver α) : solver.KeepsSlot id solver :=
  of_unknowns rfl rfl rfl

theorem trans (left : before.KeepsSlot id middle)
    (right : middle.KeepsSlot id after) :
    before.KeepsSlot id after := by
  refine ⟨right.settings.trans left.settings,
    Nat.le_trans left.nextVariable right.nextVariable,
    fun later old found => ?_⟩
  have older : id < middle.nextVariable :=
    Int.lt_of_lt_of_le old (Int.ofNat_le.mpr left.nextVariable)
  rcases right.kept later older found with
    ⟨between, isBetween, sameValue, sameHook⟩
  rcases left.kept between old isBetween with ⟨former, isFormer, value, hook⟩
  exact ⟨former, isFormer, sameValue.trans value, sameHook.trans hook⟩

theorem insertVariable (solver : Solver α) (name : Option String) (value : α) :
    solver.KeepsSlot id (solver.insertVariable name value) := by
  refine ⟨rfl, Nat.le_succ _, fun later old found => ?_⟩
  rw [Solver.insertVariable, Table.get?_put, if_neg (Int.ne_of_lt old)] at found
  exact ⟨later, found, rfl, rfl⟩

theorem modifyVariable (solver : Solver α) (target : VariableId)
    {change : Variable α → Variable α}
    (same : id = target → ∀ contents, (change contents).value = contents.value ∧
      (change contents).hook = contents.hook) :
    solver.KeepsSlot id (solver.modifyVariable target change) := by
  refine ⟨rfl, Nat.le_refl _, fun later _ found => ?_⟩
  rw [Solver.modifyVariable, Table.get?_modify] at found
  split at found
  · next isTarget =>
      rcases Option.map_eq_some_iff.mp found with ⟨former, isFormer, rfl⟩
      exact ⟨former, isFormer, same isTarget former⟩
  · exact ⟨later, found, rfl, rfl⟩

theorem pin [One α] (solver : Solver α) (target : VariableId) :
    solver.KeepsSlot id (solver.pin target) := by
  unfold Solver.pin
  split
  · exact refl solver
  · next contents _ =>
      have inserted : solver.KeepsSlot id (solver.insertConstraint
          ⟨Table.empty.put target 1, contents.value, .pin⟩) :=
        of_unknowns rfl rfl rfl
      exact inserted.trans (modifyVariable _ target fun _ _ => ⟨rfl, rfl⟩)

theorem release (solver : Solver α) (target : VariableId) :
    solver.KeepsSlot id (solver.release target) := by
  unfold Solver.release
  split
  · have unlocked : solver.KeepsSlot id
        (solver.modifyVariable target fun contents =>
          { contents with lock := none }) :=
      modifyVariable solver target fun _ _ => ⟨rfl, rfl⟩
    exact unlocked.trans (of_unknowns rfl rfl rfl)
  · exact refl solver

theorem eraseVariable (solver : Solver α) (target : VariableId) :
    solver.KeepsSlot id (solver.eraseVariable target) := by
  have erased :
      (solver.release target).KeepsSlot id (solver.eraseVariable target) := by
    refine ⟨rfl, Nat.le_refl _, fun later _ found => ?_⟩
    simp only [Solver.eraseVariable, Table.get?_erase] at found
    split at found
    · cases found
    · exact ⟨later, found, rfl, rfl⟩
  exact (release solver target).trans erased

theorem eraseConstraint (solver : Solver α) (held : ConstraintId) :
    solver.KeepsSlot id (solver.eraseConstraint held) := by
  refine ⟨rfl, Nat.le_refl _, fun later _ found => ?_⟩
  rw [Solver.eraseConstraint, Table.get?_map, Option.map_eq_some_iff] at found
  rcases found with ⟨former, isFormer, rfl⟩
  refine ⟨former, isFormer, ?_⟩
  split
  · exact ⟨rfl, rfl⟩
  · exact ⟨rfl, rfl⟩

end KeepsSlot

def value? (solver : Solver α) (id : VariableId) : Option α :=
  (solver.unknowns.get? id).map Variable.value

structure KeepsValues (before after : Solver α) : Prop where
  nextVariable : before.nextVariable ≤ after.nextVariable
  values (id : VariableId) (value : α)
    (present : after.value? id = some value) :
    before.value? id = some value ∨ before.nextVariable ≤ id

namespace KeepsValues

variable {before middle after : Solver α}

theorem of_unknowns (unknowns : after.unknowns = before.unknowns)
    (nextVariable : after.nextVariable = before.nextVariable) :
    before.KeepsValues after := by
  constructor
  · exact Nat.le_of_eq nextVariable.symm
  · intro id value present
    rw [value?, unknowns] at present
    exact .inl present

theorem refl (solver : Solver α) : solver.KeepsValues solver :=
  of_unknowns rfl rfl

theorem trans (left : before.KeepsValues middle)
    (right : middle.KeepsValues after) :
    before.KeepsValues after := by
  constructor
  · exact Nat.le_trans left.nextVariable right.nextVariable
  · intro id value present
    rcases right.values id value present with kept | new
    · exact left.values id value kept
    · exact .inr (Int.le_trans (Int.ofNat_le.mpr left.nextVariable) new)

theorem modifyVariable (solver : Solver α) (id : VariableId)
    {change : Variable α → Variable α}
    (same : ∀ contents, (change contents).value = contents.value) :
    solver.KeepsValues (solver.modifyVariable id change) := by
  constructor
  · exact Nat.le_refl _
  · intro other value present
    simp only [value?, Solver.modifyVariable, Table.get?_modify] at present
    split at present
    · rw [Option.map_map] at present
      have sameValue : Variable.value ∘ change = Variable.value := funext same
      rw [sameValue] at present
      exact .inl present
    · exact .inl present

theorem of_slots (slots : ∀ id, before.KeepsSlot id after) :
    before.KeepsValues after := by
  refine ⟨(slots 0).nextVariable, fun id value present => ?_⟩
  rcases Option.map_eq_some_iff.mp present with ⟨later, isLater, rfl⟩
  rcases Int.lt_or_le id before.nextVariable with old | new
  · rcases (slots id).kept later old isLater with
      ⟨former, isFormer, sameValue, _⟩
    exact .inl (Option.map_eq_some_iff.mpr ⟨former, isFormer, sameValue.symm⟩)
  · exact .inr new

theorem insertVariable (solver : Solver α) (name : Option String) (value : α) :
    solver.KeepsValues (solver.insertVariable name value) :=
  of_slots fun _ => .insertVariable solver name value

theorem pin [One α] (solver : Solver α) (id : VariableId) :
    solver.KeepsValues (solver.pin id) :=
  of_slots fun _ => .pin solver id

theorem release (solver : Solver α) (id : VariableId) :
    solver.KeepsValues (solver.release id) :=
  of_slots fun _ => .release solver id

theorem eraseVariable (solver : Solver α) (id : VariableId) :
    solver.KeepsValues (solver.eraseVariable id) :=
  of_slots fun _ => .eraseVariable solver id

theorem eraseConstraint (solver : Solver α) (id : ConstraintId) :
    solver.KeepsValues (solver.eraseConstraint id) :=
  of_slots fun _ => .eraseConstraint solver id

theorem value?_eq (keeps : before.KeepsValues after) {id : VariableId}
    {value : α} (below : id < before.nextVariable)
    (present : after.value? id = some value) :
    before.value? id = some value := by
  rcases keeps.values id value present with kept | new
  · exact kept
  · exact absurd new (Int.not_le.mpr below)

end KeepsValues

end Solver

/-! ## Pieces -/

variable [Scalar α]

namespace Draft

/-- One piece of a task. -/
inductive Piece : Draft α → Draft α → Prop
  /-- A change that moves no value and makes no mark. -/
  | changed {draft solver} (changes : draft.solver.Changes solver)
      (marks : draft.solver.SameMarks solver)
      (values : draft.solver.KeepsValues solver) :
      Piece draft { draft with solver }
  | noted {draft note} (unconcerned : note.concernsWork = false) :
      Piece draft { draft with notes := note :: draft.notes }
  | wrote (yields : Edit.writeSolution.Yields before result after) :
      Piece before after
  /-- While hooks run, a value is queued. -/
  | queued {draft} (busy : draft.solver.dispatching = true) (id : VariableId)
      (value : α) :
      Piece draft
        ⟨{ draft.solver with deferred := draft.solver.deferred ++
          [(id, value)] }, .valueQueued id value :: draft.notes⟩
  | applied {id : VariableId} {value : α}
      (idle : before.solver.dispatching = false)
      (yields : (Edit.applyValue id value).Yields before result after) :
      Piece before after

def Pieced : Draft α → Draft α → Prop :=
  Relation.ReflTransGen Piece

inductive Moves (before : Draft α) (moved : List VariableId)
    (after : Draft α) : Prop
  | wrote (yields : Edit.writeSolution.Yields before (.ok moved) after)
  | applied {id : VariableId} {value : α}
      (idle : before.solver.dispatching = false)
      (yields : (Edit.applyValue id value).Yields before (.ok moved) after)

structure Leads (before : Draft α)
    (result : Except (Failure α) (List VariableId)) (after : Draft α) :
    Prop where
  pieced : before.Pieced after
  moves (moved : List VariableId) (done : result = .ok moved)
    (some : moved ≠ []) :
    ∃ middle, before.Pieced middle ∧ middle.Moves moved after

variable {first before middle after : Draft α}
  {result : Except (Failure α) (List VariableId)}

theorem Piece.pieced (piece : before.Piece after) : before.Pieced after :=
  Relation.ReflTransGen.single piece

theorem Pieced.lasting : Edit.Lasting (Pieced : Draft α → Draft α → Prop) :=
  ⟨fun _ => .refl, fun _ _ _ left right => left.trans right⟩

theorem Pieced.keeps {relation : Draft α → Draft α → Prop}
    (pieced : before.Pieced after) (lasting : Edit.Lasting relation)
    (pieces : ∀ {before after : Draft α}, before.Piece after →
      relation before after) :
    relation before after := by
  induction pieced with
  | refl => exact lasting.refl before
  | tail _ piece induction => exact lasting.trans _ _ _ induction (pieces piece)

namespace Leads

theorem of_still (pieced : before.Pieced after)
    (still : ∀ moved, result = .ok moved → moved = []) :
    before.Leads result after :=
  ⟨pieced, fun moved done some => absurd (still moved done) some⟩

theorem nothing (draft : Draft α) : draft.Leads (.ok []) draft :=
  of_still .refl fun _ same => (Except.ok.inj same).symm

theorem failed (draft : Draft α) (failure : Failure α) :
    draft.Leads (.error failure) draft :=
  of_still .refl fun _ impossible => nomatch impossible

theorem wrote (yields : Edit.writeSolution.Yields before result after) :
    before.Leads result after := by
  refine ⟨(Piece.wrote yields).pieced, fun moved done _ =>
    ⟨before, .refl, .wrote ?_⟩⟩
  rw [← done]
  exact yields

theorem wroteIfAuto (yields : Edit.writeIfAuto.Yields before result after) :
    before.Leads result after := by
  simp only [Edit.writeIfAuto, Edit.yields_current_bind] at yields
  split at yields
  · exact wrote yields
  · rcases Edit.yields_pure.mp yields with ⟨rfl, rfl⟩
    exact nothing _

theorem applied {id : VariableId} {value : α}
    (idle : before.solver.dispatching = false)
    (yields : (Edit.applyValue id value).Yields before result after) :
    before.Leads result after := by
  refine ⟨(Piece.applied idle yields).pieced, fun moved done _ =>
    ⟨before, .refl, ?_⟩⟩
  rw [done] at yields
  exact .applied idle yields

theorem starting (pieced : first.Pieced before)
    (leads : before.Leads result after) :
    first.Leads result after := by
  refine ⟨pieced.trans leads.pieced, fun moved done some => ?_⟩
  rcases leads.moves moved done some with ⟨middle, early, moves⟩
  exact ⟨middle, pieced.trans early, moves⟩

theorem undone {undo : Solver α → Solver α} {edit : Edit α (List VariableId)}
    (leads : ∀ {middle : Draft α}, edit.Yields before result middle →
      before.Leads result middle)
    (undoing : ∀ {middle : Draft α},
      edit.Yields before (.error .overConstrained) middle →
      middle.Pieced { middle with solver := undo middle.solver })
    (yields : (edit.undoing undo).Yields before result after) :
    before.Leads result after := by
  rcases Edit.yields_undoing.mp yields with ⟨middle, done, isAfter⟩
  rw [isAfter]
  split
  · refine of_still ((leads done).pieced.trans (undoing done)) ?_
    intro _ impossible
    cases impossible
  · exact leads done

end Leads

end Draft

/-! ## Edits -/

namespace Edit

open Draft (Piece Pieced Leads)
open Draft.Pieced (lasting)

variable {β : Type} {before after : Draft α}

def Composed (edit : Edit α (List VariableId)) : Prop :=
  ∀ before result after, edit.Yields before result after →
    Leads before result after

theorem composed_bind {edit : Edit α β} {next : β → Edit α (List VariableId)}
    (first : Keeps Pieced edit) (later : ∀ value, Composed (next value)) :
    Composed (edit >>= next) := by
  intro before result after yields
  rcases yields_bind.mp yields with ⟨failure, failed, rfl⟩
    | ⟨value, middle, done, rest⟩
  · refine .of_still (first _ _ _ failed) ?_
    intro _ impossible
    cases impossible
  · exact .starting (first _ _ _ done) (later value _ _ _ rest)

theorem composed_still {edit : Edit α β} (kept : Keeps Pieced edit) :
    Composed edit.still := by
  intro before result after yields
  rcases yields_still.mp yields with ⟨outcome, ended, rfl⟩
  refine .of_still (kept _ _ _ ended) ?_
  intro moved isMoved
  cases outcome with
  | error failure => cases isMoved
  | ok value => exact (Except.ok.inj isMoved).symm

theorem composed_check_bind {condition : Solver α → Except (Failure α) β}
    {next : β → Edit α (List VariableId)}
    (later : ∀ value, Composed (next value)) :
    Composed (check condition >>= next) :=
  composed_bind (lasting.check condition) later

theorem composed_ofOutcome_bind {outcome : Except (Failure α) β}
    {next : β → Edit α (List VariableId)}
    (later : ∀ value, Composed (next value)) :
    Composed (ofOutcome outcome >>= next) :=
  composed_bind (lasting.ofOutcome outcome) later

theorem pieced_update {change : Solver α → Solver α}
    (changes : ∀ solver : Solver α, solver.Changes (change solver))
    (marks : ∀ solver : Solver α, solver.SameMarks (change solver))
    (values : ∀ solver : Solver α, solver.KeepsValues (change solver)) :
    Keeps Pieced (update change) :=
  keeps_update fun draft =>
    (Piece.changed (changes draft.solver) (marks draft.solver)
      (values draft.solver)).pieced

theorem pieced_noted {notes : List (Note α)}
    (unconcerned : ∀ note ∈ notes, note.concernsWork = false)
    (draft : Draft α) :
    draft.Pieced { draft with notes := notes ++ draft.notes } := by
  induction notes with
  | nil => exact .refl
  | cons note rest induction =>
      refine .tail (induction fun note member => ?_)
        (Piece.noted (unconcerned note List.mem_cons_self))
      exact unconcerned note (List.mem_cons_of_mem _ member)

theorem reduction_pieced (solver : Solver α) :
    Keeps Pieced (reduction solver) := by
  intro before result after yields
  rcases reduction_cases yields with ⟨isAfter, _, notes, isNotes, unconcerned⟩
  have same : after = { before with notes := notes ++ before.notes } := by
    rw [← isNotes, ← isAfter]
  rw [same]
  exact pieced_noted unconcerned before

theorem pieced_setHook (draft : Draft α) (id : VariableId)
    (hook : Option HookId) :
    draft.Pieced { draft with solver := draft.solver.setHook id hook } :=
  (Piece.changed
    (.modifyVariable id (fun contents => { contents with hook }) fun _ => rfl)
    ⟨rfl, rfl, rfl, rfl, rfl, rfl⟩ (.modifyVariable draft.solver id fun _ =>
      rfl)).pieced

theorem forget_pieced (id : VariableId) (hook : Option HookId) :
    Keeps Pieced (forget id hook : Edit α Unit) := by
  refine keeps_update fun draft => ?_
  split
  · split
    · exact pieced_setHook draft id none
    · exact .refl
  · exact .refl

theorem composed_checkVariable_bind {argument : Argument}
    {next : VariableId → Edit α (List VariableId)}
    (later : ∀ id before result after, id ∈ before.solver.unknowns.keys →
      (next id).Yields before result after → Leads before result after) :
    Composed
      ((check fun solver => solver.checkVariable argument) >>= next) := by
  intro before result after yields
  rcases yields_check_bind.mp yields with ⟨failure, _, rfl, rfl⟩
    | ⟨id, checked, rest⟩
  · exact .failed _ failure
  · exact later id _ _ _ (Solver.mem_keys_of_checkVariable checked) rest

/-- The terms that have been checked name live variables, each of them once. -/
theorem checkTerms_over {solver : Solver α} {terms : List (Argument × Option α)}
    {stored : Table VariableId α}
    (checked : checkTerms solver terms = .ok stored) (sum : α)
    (origin : Origin) :
    Constraint.Over solver.unknowns.keys { terms := stored, sum, origin } := by
  have extends_ : ∀ (terms : List (Argument × Option α))
      (former stored : Table VariableId α),
      Constraint.Over solver.unknowns.keys { terms := former, sum, origin } →
      terms.foldlM (fun stored term => do
        let coefficient ← finite .coefficient term.2
        let id ← solver.checkVariable term.1
        return stored.put id coefficient) former = Except.ok stored →
      Constraint.Over solver.unknowns.keys
        { terms := stored, sum, origin } := by
    intro terms
    induction terms with
    | nil =>
        intro former stored isOver equal
        cases equal
        exact isOver
    | cons term rest induction =>
        intro former stored isOver equal
        rw [List.foldlM_cons] at equal
        cases number : finite .coefficient term.2 with
        | error failure =>
            rw [number] at equal
            cases equal
        | ok coefficient =>
            cases checked : solver.checkVariable term.1 with
            | error failure =>
                rw [number, checked] at equal
                cases equal
            | ok id =>
                rw [number, checked] at equal
                exact induction _ stored
                  (isOver.put (Solver.mem_keys_of_checkVariable checked)
                    coefficient) equal
  refine extends_ terms Table.empty stored ⟨List.nodup_nil, ?_⟩ checked
  intro id impossible
  cases impossible

theorem constraints_writeIfAuto {result : Except (Failure α) (List VariableId)}
    (yields : writeIfAuto.Yields before result after) :
    after.solver.constraints = before.solver.constraints := by
  rcases writeIfAuto_cases yields with ⟨_, writes⟩ | ⟨_, _, rfl⟩
  · exact writes.constraints
  · rfl

theorem setValue_composed (handle : VariableHandle) (value : Option α) :
    Composed (setValue handle value) := by
  refine composed_check_bind fun id => composed_ofOutcome_bind fun value => ?_
  intro before result after yields
  simp only [yields_current_bind] at yields
  split at yields
  · next busy =>
      simp only [yields_update_bind, yields_note_bind, yields_pure] at yields
      rcases yields with ⟨rfl, rfl⟩
      exact .of_still (Piece.queued busy id value).pieced
        fun _ same => (Except.ok.inj same).symm
  · next idle => exact .applied (by simpa using idle) yields

theorem lock_composed (handle : VariableHandle) :
    Composed (lock handle : Edit α _) := by
  intro before result after yields
  rcases yields_check_bind.mp yields with ⟨failure, _, rfl, rfl⟩
    | ⟨contents, checked, rest⟩
  · exact .failed _ failure
  · split at rest
    · rcases yields_pure.mp rest with ⟨rfl, rfl⟩
      exact .nothing _
    · next notLocked =>
        have unlocked : before.solver.lockOf handle.id = none := by
          rw [Solver.lockOf_of_get? (Solver.get?_of_variableAt checked)]
          simpa using notLocked
        refine .starting
          (Piece.changed (.pin unlocked) (.pin _ _) (.pin _ _)).pieced ?_
        refine .undone Leads.wroteIfAuto ?_ (yields_update_bind.mp rest)
        intro middle _
        exact (Piece.changed (.release handle.id) (.release _ _)
          (.release _ _)).pieced

theorem addConstraint_composed (terms : List (Argument × Option α))
    (total : Option α) :
    Composed (Task.addConstraint terms total).edit := by
  rw [Task.edit_addConstraint]
  refine composed_ofOutcome_bind fun sum => ?_
  intro before result after yields
  rcases yields_check_bind.mp yields with ⟨failure, _, rfl, rfl⟩
    | ⟨stored, checked, rest⟩
  · exact .failed _ failure
  · simp only [yields_current_bind, yields_update_bind] at rest
    have isOver := checkTerms_over checked sum .stated
    have inserted : Piece before
        ⟨before.solver.insertConstraint
          { terms := stored, sum, origin := .stated }, before.notes⟩ :=
      .changed (.insertConstraint isOver rfl) ⟨rfl, rfl, rfl, rfl, rfl, rfl⟩
        (.of_unknowns rfl rfl)
    refine .starting inserted.pieced (.undone Leads.wroteIfAuto ?_ rest)
    intro middle written
    -- What is taken back is the constraint that was inserted.
    have stated :
        middle.solver.originOf before.solver.nextConstraint = some .stated := by
      rw [Solver.originOf, constraints_writeIfAuto written,
        Solver.insertConstraint, Table.get?_put_self]
      rfl
    exact (Piece.changed (.dropConstraint stated) ⟨rfl, rfl, rfl, rfl, rfl, rfl⟩
      (.of_unknowns rfl rfl)).pieced

theorem modifyConstraint_leads {id : ConstraintId}
    {change : Constraint α → Constraint α}
    {result : Except (Failure α) (List VariableId)}
    (keepsOver : ∀ constraint : Constraint α,
      constraint.Over before.solver.unknowns.keys →
      (change constraint).Over before.solver.unknowns.keys)
    (sameOrigin : ∀ constraint, (change constraint).origin = constraint.origin)
    (yields : (do
      update fun solver => solver.modifyConstraint id change
      writeIfAuto).Yields before result after) : Leads before result after := by
  refine .starting (Piece.pieced ?_)
    (.wroteIfAuto (yields_update_bind.mp yields))
  exact .changed (.modifyConstraint id change keepsOver sameOrigin)
    ⟨rfl, rfl, rfl, rfl, rfl, rfl⟩ (.of_unknowns rfl rfl)

theorem setTerm_composed (handle : ConstraintHandle) (argument : Argument)
    (coefficient : Option α) :
    Composed (setTerm handle argument coefficient) := by
  refine composed_check_bind fun _ =>
    composed_ofOutcome_bind fun coefficient => ?_
  refine composed_checkVariable_bind fun id before result after live rest => ?_
  exact modifyConstraint_leads (fun _ isOver => isOver.put live coefficient)
    (fun _ => rfl) rest

theorem addTerm_composed (handle : ConstraintHandle) (argument : Argument)
    (coefficient : Option α) :
    Composed (addTerm handle argument coefficient) := by
  refine composed_check_bind fun _ => ?_
  refine composed_checkVariable_bind
    fun id before result after live yields => ?_
  rcases yields_ofOutcome_bind.mp yields with ⟨failure, _, rfl, rfl⟩
    | ⟨coefficient, _, rest⟩
  · exact .failed _ failure
  · exact modifyConstraint_leads (fun _ isOver => isOver.put live _)
      (fun _ => rfl) rest

theorem removeTerm_composed (handle : ConstraintHandle) (argument : Argument) :
    Composed (removeTerm handle argument : Edit α _) := by
  refine composed_check_bind fun _ => ?_
  refine composed_checkVariable_bind fun id before result after _ rest => ?_
  exact modifyConstraint_leads (fun _ isOver => isOver.erase id)
    (fun _ => rfl) rest

theorem setSum_composed (handle : ConstraintHandle) (total : Option α) :
    Composed (setSum handle total) := by
  refine composed_ofOutcome_bind fun sum => composed_check_bind fun _ => ?_
  intro before result after yields
  refine modifyConstraint_leads ?_ ?_ yields
  · exact fun _ isOver => ⟨isOver.nodup, isOver.live⟩
  · exact fun _ => rfl

end Edit

namespace Task

open Edit
open Draft (Piece)
open Draft.Pieced (lasting)

theorem edit_composed (task : Task α) : Composed task.edit := by
  cases task with
  | solve => exact fun _ _ _ yields => .wrote yields
  | addVariable name value =>
      refine composed_still (lasting.bind (lasting.ofOutcome _) fun value => ?_)
      refine lasting.bind lasting.current fun _ => lasting.bind ?_ fun _ =>
        lasting.pure _
      exact pieced_update (fun _ => .insertVariable name value)
        (fun _ => ⟨rfl, rfl, rfl, rfl, rfl, rfl⟩) fun solver =>
        .insertVariable solver name value
  | setValue handle value => exact setValue_composed handle value
  | lock handle => exact lock_composed handle
  | unlock handle =>
      exact composed_still (lasting.bind (lasting.check _) fun _ =>
        pieced_update (fun _ => .release _) (fun _ => .release _ _) fun _ =>
          .release _ _)
  | deleteVariable handle =>
      exact composed_still (lasting.bind (lasting.check _) fun _ =>
        pieced_update (fun _ => .eraseVariable _) (fun _ => .eraseVariable _ _)
          fun _ => .eraseVariable _ _)
  | observe handle hook =>
      exact composed_still (lasting.bind (lasting.check _) fun _ => keeps_update
        fun draft => pieced_setHook draft handle.id hook)
  | forget id hook => exact composed_still (forget_pieced id hook)
  | addConstraint terms total => exact addConstraint_composed terms total
  | setTerm handle argument coefficient =>
      exact setTerm_composed handle argument coefficient
  | addTerm handle argument coefficient =>
      exact addTerm_composed handle argument coefficient
  | removeTerm handle argument => exact removeTerm_composed handle argument
  | setSum handle total => exact setSum_composed handle total
  | deleteConstraint handle =>
      exact composed_still (lasting.bind (lasting.check _) fun _ =>
        pieced_update (fun _ => .eraseConstraint _)
          (fun _ => ⟨rfl, rfl, rfl, rfl, rfl, rfl⟩)
        fun _ => .eraseConstraint _ _)
  | isOverConstrained | isUnderConstrained | freeVariables =>
      exact composed_still (lasting.bind lasting.current fun solver =>
        lasting.bind (reduction_pieced solver) fun _ => lasting.pure _)

theorem edit_keeps {relation : Draft α → Draft α → Prop} (task : Task α)
    (lasting : Lasting relation)
    (pieces : ∀ {before after : Draft α}, before.Piece after →
      relation before after) :
    Keeps relation task.edit :=
  fun _ _ _ yields =>
    (task.edit_composed _ _ _ yields).pieced.keeps lasting pieces

end Task

/-! ## Pieces are steady -/

theorem Draft.Piece.steady {before after : Draft α}
    (piece : before.Piece after) :
    Draft.Steady before after := by
  cases piece with
  | changed _ marks _ => exact .of_sameMarks before marks
  | noted unconcerned =>
      refine ⟨rfl, rfl, rfl, rfl, fun _ => ⟨rfl, id⟩, [_], rfl, ?_⟩
      exact .of_sublist (by simpa using unconcerned) (List.Sublist.refl _) id
  | wrote yields => exact Edit.writeSolution_steady _ _ _ yields
  | queued busy id value =>
      refine ⟨rfl, rfl, rfl, rfl, ?_, [_], rfl, Work.Accounts.queue _ id value⟩
      intro idle
      rw [idle] at busy
      cases busy
  | applied _ yields => exact Edit.applyValue_steady _ _ _ _ _ yields

theorem Draft.Pieced.steady {before after : Draft α}
    (pieced : before.Pieced after) :
    Draft.Steady before after :=
  pieced.keeps Draft.Steady.lasting Piece.steady

theorem Task.edit_steady (task : Task α) : Edit.Keeps Draft.Steady task.edit :=
  task.edit_keeps Draft.Steady.lasting Draft.Piece.steady

theorem Task.idle_of_moved {task : Task α} {before after : Draft α}
    {moved : List VariableId}
    (yields : task.edit.Yields before (.ok moved) after) (some : moved ≠ []) :
    before.solver.dispatching = false := by
  rcases (task.edit_composed _ _ _ yields).moves moved rfl some with
    ⟨middle, pieced, moves⟩
  rw [← pieced.steady.dispatching]
  cases moves with
  | wrote yields => exact (Edit.writeSolution_cases yields).1.idle_of_moved some
  | applied idle _ => exact idle

/-! ## Pieces are changes -/

namespace Edit

open Draft (Evolves)

theorem writeIfAuto_evolves : Keeps Evolves (writeIfAuto : Edit α _) := by
  intro before result after yields
  rcases writeIfAuto_cases yields with ⟨_, writes⟩ | ⟨_, _, rfl⟩
  · exact writes.evolves
  · exact .refl _

theorem applyValue_evolves (id : VariableId) (value : α) :
    Keeps Evolves (applyValue id value) := by
  intro before result after yields
  cases applyValue_cases yields with
  | absent _ | unread _ _ | noNews _ _ _ => exact .refl _
  | @held former _ outcome middle _ _ _ written =>
      have holding := Solver.Evolves.holdAt before.solver id value
      exact (holding.trans (writeIfAuto_evolves _ _ _ written)).trans
        (.letGo middle.solver id former outcome)

end Edit

theorem Draft.Piece.evolves {before after : Draft α}
    (piece : before.Piece after) :
    before.Evolves after := by
  cases piece with
  | changed changes _ _ => exact changes.evolves
  | noted _ => exact .refl _
  | wrote yields => exact (Edit.writeSolution_cases yields).1.evolves
  | queued _ _ _ => exact Solver.SameContents.evolves ⟨rfl, rfl, rfl, rfl⟩
  | applied _ yields => exact Edit.applyValue_evolves _ _ _ _ _ yields

theorem Task.edit_evolves (task : Task α) :
    Edit.Keeps Draft.Evolves task.edit :=
  task.edit_keeps Draft.Evolves.lasting Draft.Piece.evolves

theorem Solver.evolves_of_nextDeferred {solver : Solver α} {after : Draft α}
    {work : Edit α (List VariableId)}
    {result : Except (Failure α) (List VariableId)}
    (next : solver.nextDeferred = some work)
    (yields : work.Yields ⟨solver, []⟩ result after) :
    solver.Evolves after.solver := by
  rcases nextDeferred_cases next with ⟨target, value, rest, _, rfl⟩
    | ⟨_, _, rfl⟩
  · have taken : solver.Evolves { solver with deferred := rest } :=
      SameContents.evolves ⟨rfl, rfl, rfl, rfl⟩
    exact taken.trans (Edit.applyValue_evolves target value _ _ _ yields)
  · exact (Edit.writeSolution_cases yields).1.evolves

end LiveLinear
