import LiveLinear.Proofs.Solver.Assembly
import LiveLinear.Proofs.Solver.Assignment
import LiveLinear.Proofs.Solver.Atomicity
import LiveLinear.Proofs.Solver.Moving
import LiveLinear.Proofs.Solver.Turns

namespace LiveLinear

/-! # What is announced

An edit announces the variables that its solve has moved, in order. One that
gives a variable a value announces that variable as well, after all others. -/

variable {α : Type}

def Note.isSolved : Note α → Bool
  | .solved _ _ => true
  | .assembled _ _ | .reduced _ _ _ | .solveDeferred | .valueQueued _ _
      | .contradictionIgnored | .valueTaken _ _ | .solveTaken => false

theorem Note.Solution.any_isSolved {notes : List (Note α)}
    (solution : Note.Solution notes) :
    notes.any Note.isSolved = true := by
  cases solution <;> rfl

theorem Settings.tolerance_of_toleranceFor {settings : Settings α}
    {comparison : Comparison} {tolerance : α}
    (given : settings.toleranceFor comparison = .ok tolerance) :
    settings.tolerance = some tolerance := by
  unfold toleranceFor at given
  split at given
  · next isGiven =>
      cases given
      exact isGiven
  · cases given

namespace Draft

def Unsolved (before after : Draft α) : Prop :=
  ∃ notes, after.notes = notes ++ before.notes ∧ notes.any Note.isSolved = false

theorem Unsolved.lasting :
    Edit.Lasting (Unsolved : Draft α → Draft α → Prop) := by
  refine ⟨fun _ => ⟨[], rfl, rfl⟩, ?_⟩
  rintro first second third ⟨earlier, isSecond, unsolved⟩
    ⟨later, isThird, unsolvedToo⟩
  refine ⟨later ++ earlier, ?_, ?_⟩
  · rw [isThird, isSecond, List.append_assoc]
  · rw [List.any_append, unsolved, unsolvedToo, Bool.or_self]

end Draft

theorem Edit.update_unsolved (change : Solver α → Solver α) :
    Edit.Keeps Draft.Unsolved (Edit.update change) :=
  Edit.keeps_update fun _ => ⟨[], rfl, rfl⟩

variable [Scalar α]

namespace Solver

def shifted (former later : Solver α) (tolerance : α) : List VariableId :=
  former.unknowns.keys.filter fun id =>
    Scalar.significant tolerance (later.valueOf id - former.valueOf id)

/-- Whether variables are those that an edit has moved by solving, if its notes
tell of a solution. -/
def Tells (former : Solver α) (notes : List (Note α)) (later : Solver α)
    (moved : List VariableId) : Prop :=
  if notes.any Note.isSolved then
    later.unknowns.keys = former.unknowns.keys ∧
      ∃ tolerance, former.settings.tolerance = some tolerance ∧
        moved = former.shifted later tolerance
  else moved = []

structure Unmoved (except : List VariableId) (before after : Solver α) :
    Prop where
  keys : after.unknowns.keys = before.unknowns.keys
  tolerance : after.settings.tolerance = before.settings.tolerance
  dispatching : after.dispatching = before.dispatching
  values (id : VariableId) (other : id ∉ except) :
    after.valueOf id = before.valueOf id

variable {before middle after former later : Solver α}
  {except : List VariableId} {notes : List (Note α)} {moved : List VariableId}

theorem tells_nothing (before after : Solver α) : before.Tells [] after [] :=
  rfl

theorem Tells.append_unsolved {earlier : List (Note α)}
    (tells : before.Tells notes after moved)
    (unsolved : earlier.any Note.isSolved = false) :
    before.Tells (notes ++ earlier) after moved := by
  rw [Tells, List.any_append, unsolved, Bool.or_false]
  exact tells

theorem moved_eq_shifted (nodup : before.unknowns.keys.Nodup) (tolerance : α)
    (target : Vector α before.unknowns.size) :
    before.moved tolerance target = before.shifted (before.storePoint target)
      tolerance := by
  rw [moved, shifted, keys_eq_map_entry, List.filter_map,
    ← List.filterMap_eq_map, List.filterMap_filter]
  refine List.filterMap_congr fun column _ => ?_
  simp only [Function.comp_apply]
  rw [valueOf_storePoint nodup, valueOf_columnId nodup]
  rfl

namespace Unmoved

theorem refl (solver : Solver α) : Unmoved except solver solver :=
  ⟨rfl, rfl, rfl, fun _ _ => rfl⟩

theorem trans (left : Unmoved except before middle)
    (right : Unmoved except middle after) :
    Unmoved except before after :=
  ⟨right.keys.trans left.keys, right.tolerance.trans left.tolerance,
    right.dispatching.trans left.dispatching,
    fun id other => (right.values id other).trans (left.values id other)⟩

theorem of_unknowns (marks : before.SameMarks after)
    (same : after.unknowns = before.unknowns) :
    Unmoved except before after := by
  refine ⟨by rw [same], by
    rw [marks.settings], marks.dispatching, fun id _ => ?_⟩
  rw [valueOf, same, valueOf]

theorem pin (solver : Solver α) (id : VariableId) :
    Unmoved except solver (solver.pin id) :=
  ⟨keys_pin solver id, by rw [(SameMarks.pin solver id).settings],
    (SameMarks.pin solver id).dispatching, fun other _ =>
    valueOf_pin solver id other⟩

theorem release (solver : Solver α) (id : VariableId) :
    Unmoved except solver (solver.release id) :=
  ⟨keys_release solver id, by rw [(SameMarks.release solver id).settings],
    (SameMarks.release solver id).dispatching, fun other _ =>
    valueOf_release solver id other⟩

theorem storeValue (solver : Solver α) (id : VariableId) (value : α) :
    Unmoved [id] solver (solver.storeValue id value) := by
  refine ⟨Table.keys_modify _ _ _, rfl, rfl, fun other different => ?_⟩
  rw [List.mem_singleton] at different
  simp [valueOf, Solver.storeValue, modifyVariable, Table.get?_modify,
    different]

theorem holdAt (solver : Solver α) (id : VariableId) (value : α) :
    Unmoved [id] solver (solver.holdAt id value) :=
  ((storeValue solver id value).trans (release _ id)).trans (pin _ id)

theorem letGo (solver : Solver α) (id : VariableId) (contents : Variable α)
    (others : List VariableId) :
    Unmoved except solver (solver.letGo id contents (.ok others)) := by
  simp only [Solver.letGo]
  split
  · exact refl solver
  · exact release solver id

/-- What has been moved besides is what has been moved at all. -/
theorem tells (starts : Unmoved except before former)
    (ends : Unmoved except later after)
    (tells : former.Tells notes later moved) :
    ∃ others, before.Tells notes after others ∧
      moved.filter (fun id => id ∉ except) =
        others.filter (fun id => id ∉ except) := by
  unfold Tells at tells ⊢
  split at tells
  · next solved =>
      rcases tells with ⟨keys, tolerance, given, rfl⟩
      refine ⟨before.shifted after tolerance, ?_, ?_⟩
      · rw [if_pos solved]
        exact ⟨ends.keys.trans (keys.trans starts.keys), tolerance,
          starts.tolerance.symm.trans given, rfl⟩
      · rw [shifted, shifted, starts.keys, List.filter_filter,
          List.filter_filter]
        refine List.filter_congr fun id _ => ?_
        by_cases other : id ∈ except
        · simp [other]
        · rw [starts.values id other, ends.values id other]
  · next unsolved =>
      refine ⟨[], ?_, by rw [tells]⟩
      rw [if_neg unsolved]

theorem tells_eq (starts : Unmoved [] before former)
    (tells : former.Tells notes later moved) :
    before.Tells notes later moved := by
  rcases starts.tells (.refl later) tells with ⟨others, isTold, same⟩
  simp only [List.not_mem_nil, not_false_eq_true, decide_true, List.filter_true]
    at same
  rw [same]
  exact isTold

end Unmoved

end Solver

/-! ## Edits -/

namespace Edit

open Solver (Unmoved)

variable {β : Type} {before after : Draft α} {moved : List VariableId}

def Telling (edit : Edit α (List VariableId)) : Prop :=
  ∀ before moved after, before.solver.unknowns.keys.Nodup →
    before.solver.dispatching = false → edit.Yields before (.ok moved) after →
      ∃ notes, after.notes = notes ++ before.notes ∧
        before.solver.Tells notes after.solver moved

theorem writeSolution_telling : Telling (writeSolution : Edit α _) := by
  intro before moved after nodup idle yields
  rcases (writeSolution_solution idle yields).2 with ⟨notes, isNotes, solution⟩
  refine ⟨notes.reverse, isNotes, ?_⟩
  rw [Solver.Tells, List.any_reverse, solution.any_isSolved, if_pos rfl]
  have writes := (writeSolution_cases yields).1
  generalize after.solver = later at writes ⊢
  cases writes with
  | deferred busy => cases busy.symm.trans idle
  | written _ assembled _ =>
      exact ⟨Solver.Coherent.keys_storePoint before.solver _, _,
        (Solver.assemble_eq_ok assembled).2.1,
        Solver.moved_eq_shifted nodup _ _⟩

theorem writeIfAuto_telling : Telling (writeIfAuto : Edit α _) := by
  intro before moved after nodup idle yields
  simp only [writeIfAuto, yields_current_bind] at yields
  split at yields
  · exact writeSolution_telling _ _ _ nodup idle yields
  · rcases yields_pure.mp yields with ⟨isMoved, rfl⟩
    cases isMoved
    exact ⟨[], rfl, Solver.tells_nothing _ _⟩

theorem telling_undoing {edit : Edit α (List VariableId)}
    {undo : Solver α → Solver α} (telling : Telling edit) :
    Telling (edit.undoing undo) := by
  intro before moved after nodup idle yields
  rcases yields_undoing.mp yields with ⟨middle, done, rfl⟩
  exact telling _ _ _ nodup idle done

theorem telling_update_bind {change : Solver α → Solver α}
    {next : Edit α (List VariableId)}
    (unmoved : ∀ solver : Solver α, Unmoved [] solver (change solver))
    (telling : Telling next) :
    Telling (update change >>= fun _ => next) := by
  intro before moved after nodup idle yields
  have starts := unmoved before.solver
  rw [yields_update_bind] at yields
  rcases telling _ _ _ (starts.keys ▸ nodup) (starts.dispatching.trans idle)
    yields with
    ⟨notes, isNotes, tells⟩
  exact ⟨notes, isNotes, starts.tells_eq tells⟩

theorem telling_check_bind {condition : Solver α → Except (Failure α) β}
    {next : β → Edit α (List VariableId)}
    (telling : ∀ value, Telling (next value)) :
    Telling (check condition >>= next) := by
  intro before moved after nodup idle yields
  rcases yields_check_bind.mp yields with ⟨_, _, impossible, _⟩
    | ⟨value, _, rest⟩
  · cases impossible
  · exact telling value _ _ _ nodup idle rest

theorem telling_ofOutcome_bind {outcome : Except (Failure α) β}
    {next : β → Edit α (List VariableId)}
    (telling : ∀ value, Telling (next value)) :
    Telling (ofOutcome outcome >>= next) := by
  intro before moved after nodup idle yields
  rcases yields_ofOutcome_bind.mp yields with ⟨_, _, impossible, _⟩
    | ⟨value, _, rest⟩
  · cases impossible
  · exact telling value _ _ _ nodup idle rest

theorem telling_current_bind {next : Solver α → Edit α (List VariableId)}
    (telling : ∀ solver, Telling (next solver)) :
    Telling (current >>= next) := by
  intro before moved after nodup idle yields
  exact telling _ _ _ _ nodup idle (yields_current_bind.mp yields)

theorem telling_modifyConstraint (id : ConstraintId)
    (change : Constraint α → Constraint α) :
    Telling (do
      update fun solver => solver.modifyConstraint id change
      writeIfAuto) :=
  telling_update_bind (fun _ => .of_unknowns ⟨rfl, rfl, rfl, rfl, rfl, rfl⟩ rfl)
    writeIfAuto_telling

end Edit

namespace Edit

open Draft (Unsolved)
open Draft.Unsolved (lasting)

variable {β : Type}

theorem reduction_unsolved (solver : Solver α) :
    Keeps Unsolved (reduction solver) :=
  lasting.bind (keeps_note fun _ => ⟨[_], rfl, rfl⟩) fun _ =>
    lasting.bind (lasting.ofOutcome _) fun _ =>
      lasting.bind (keeps_note fun _ => ⟨[_], rfl, rfl⟩) fun _ => lasting.pure _

theorem telling_still {edit : Edit α β} (unsolved : Keeps Unsolved edit) :
    Telling edit.still := by
  intro before moved after _ _ yields
  rcases yields_still.mp yields with ⟨outcome, ended, isMoved⟩
  rcases unsolved _ _ _ ended with ⟨notes, isNotes, unsolved⟩
  refine ⟨notes, isNotes, ?_⟩
  rw [Solver.Tells, unsolved]
  cases outcome with
  | error failure => cases isMoved
  | ok value => exact Except.ok.inj isMoved

theorem lock_telling (handle : VariableHandle) :
    Telling (lock handle : Edit α _) := by
  refine telling_check_bind fun contents => ?_
  split
  · intro before moved after _ _ yields
    rcases yields_pure.mp yields with ⟨isMoved, rfl⟩
    cases isMoved
    exact ⟨[], rfl, Solver.tells_nothing _ _⟩
  · exact telling_update_bind (fun solver => .pin solver handle.id)
      (telling_undoing writeIfAuto_telling)

theorem addConstraint_telling (terms : List (Argument × Option α))
    (total : Option α) :
    Telling (Task.addConstraint terms total).edit := by
  rw [Task.edit_addConstraint]
  refine telling_ofOutcome_bind fun sum => telling_check_bind fun stored =>
    telling_current_bind fun solver => ?_
  exact telling_update_bind
    (fun _ => .of_unknowns ⟨rfl, rfl, rfl, rfl, rfl, rfl⟩ rfl)
    (telling_undoing writeIfAuto_telling)

end Edit

/-- Every task that gives no variable a value announces what its solve has
moved. -/
theorem Task.telling (task : Task α)
    (solves : ∀ handle value, task ≠ .setValue handle value) :
    Edit.Telling task.edit := by
  open Edit in
  open Draft.Unsolved (lasting) in
  cases task with
  | solve => exact writeSolution_telling
  | addVariable name value =>
      exact telling_still (lasting.bind (lasting.ofOutcome _) fun _ =>
        lasting.bind lasting.current fun _ =>
          lasting.bind (update_unsolved _) fun _ => lasting.pure _)
  | setValue handle value => exact absurd rfl (solves handle value)
  | lock handle => exact lock_telling handle
  | unlock handle | deleteVariable handle | observe handle hook
      | deleteConstraint handle =>
      exact telling_still (lasting.bind (lasting.check _) fun _ =>
        update_unsolved _)
  | forget id hook => exact telling_still (update_unsolved _)
  | addConstraint terms total => exact addConstraint_telling terms total
  | setTerm handle argument coefficient =>
      exact telling_check_bind fun _ => telling_ofOutcome_bind fun _ =>
        telling_check_bind fun id => telling_modifyConstraint _ _
  | addTerm handle argument coefficient =>
      exact telling_check_bind fun _ => telling_check_bind fun _ =>
        telling_ofOutcome_bind fun _ => telling_modifyConstraint _ _
  | removeTerm handle argument =>
      exact telling_check_bind fun _ => telling_check_bind fun _ =>
        telling_modifyConstraint _ _
  | setSum handle total =>
      exact telling_ofOutcome_bind fun _ => telling_check_bind fun _ =>
        telling_modifyConstraint _ _
  | isOverConstrained | isUnderConstrained | freeVariables =>
      exact telling_still (lasting.bind lasting.current fun solver =>
        lasting.bind (reduction_unsolved solver) fun _ => lasting.pure _)

/-! ## Giving a variable a value -/

/-- Whether a value for a variable changes nothing: the variable is gone, or the
value is no news. -/
def Solver.Ignores (solver : Solver α) (target : VariableId) (value : α) :
    Prop :=
  ∀ former tolerance, solver.unknowns.get? target = some former →
    solver.settings.tolerance = some tolerance →
      Scalar.negligible tolerance (value - former.value) = true

namespace Edit

variable {before after : Draft α} {moved : List VariableId}
  {target : VariableId} {value : α}
  {result : Except (Failure α) (List VariableId)}

theorem applyValue_of_ignores (ignores : before.solver.Ignores target value)
    (yields : (applyValue target value).Yields before result after) :
    after = before ∧ ∀ moved, result = .ok moved → moved = [] := by
  cases applyValue_cases yields with
  | absent _ | noNews _ _ _ =>
      exact ⟨rfl, fun _ same => (Except.ok.inj same).symm⟩
  | unread _ _ => exact ⟨rfl, fun _ impossible => nomatch impossible⟩
  | held found given news _ =>
      cases (ignores _ _ found
        (Settings.tolerance_of_toleranceFor given)).symm.trans news

/-- The variable comes last, after what the solve has moved besides. -/
theorem applyValue_tells (nodup : before.solver.unknowns.keys.Nodup)
    (idle : before.solver.dispatching = false)
    (heeds : ¬before.solver.Ignores target value)
    (yields : (applyValue target value).Yields before (.ok moved) after) :
    ∃ notes others, after.notes = notes ++ before.notes ∧
      before.solver.Tells notes after.solver others ∧
      moved = others.filter (fun other => other ≠ target) ++ [target] := by
  have applies := applyValue_cases yields
  generalize isResult : Except.ok moved = result at applies
  cases applies with
  | absent gone =>
      refine absurd (fun former tolerance found => ?_) heeds
      rw [gone] at found
      cases found
  | unread _ _ => cases isResult
  | @noNews former tolerance found given small =>
      refine absurd (fun other another isThere isGiven => ?_) heeds
      rw [found] at isThere
      rw [Settings.tolerance_of_toleranceFor given] at isGiven
      cases isThere
      cases isGiven
      exact small
  | @held former tolerance outcome middle found given news written =>
      cases outcome with
      | error failure => cases isResult
      | ok others =>
          cases isResult
          have starts := Solver.Unmoved.holdAt before.solver target value
          have tells := writeIfAuto_telling _ _ _ (starts.keys.symm ▸ nodup)
            (starts.dispatching.trans idle) written
          rcases tells with ⟨notes, isNotes, tells⟩
          rcases starts.tells (.letGo middle.solver target former others)
            tells with
            ⟨told, isTold, same⟩
          simp only [List.mem_singleton] at same
          exact ⟨notes, told, isNotes, isTold, congrArg (· ++ [target]) same⟩

theorem setValue_cases {handle : VariableHandle}
    (idle : before.solver.dispatching = false)
    (yields : (setValue handle (some value)).Yields before result after) :
    ((∃ failure, result = .error failure) ∧ after = before) ∨
      (applyValue handle.id value).Yields before result after := by
  rcases yields_check_bind.mp yields with ⟨failure, _, rfl, rfl⟩
    | ⟨id, checked, rest⟩
  · exact .inl ⟨⟨failure, rfl⟩, rfl⟩
  · rcases yields_ofOutcome_bind.mp rest with ⟨failure, _, rfl, rfl⟩
      | ⟨number, isFinite, rest⟩
    · exact .inl ⟨⟨failure, rfl⟩, rfl⟩
    · rw [yields_current_bind, idle] at rest
      rcases Solver.exists_handle_of_checkVariable checked with
        ⟨same, isHandle, rfl⟩
      cases isHandle
      cases eq_some_of_finite isFinite
      exact .inr rest

end Edit

/-! ## The edits that solve, and those that set a value -/

namespace Solver

/-- The edits that may solve and give no variable a value of its own: those of
operations, and the solve that hooks have asked for. -/
inductive Solves (solver : Solver α) : Edit α (List VariableId) → Prop
  | asked {task : Task α}
      (solves : ∀ handle value, task ≠ .setValue handle value) :
      Solves solver task.edit
  | taken (next : solver.nextDeferred = some Edit.takeSolve) :
      Solves solver Edit.takeSolve

/-- The edits that give a variable a value, with what they do in any case: that
of an operation, and that of a hook, whose value is taken from the queue. -/
inductive Sets (solver : Solver α) (target : VariableId) (value : α) :
    Edit α (List VariableId) → Draft α → Prop
  | asked {handle : VariableHandle} (isTarget : handle.id = target) :
      Sets solver target value (Edit.setValue handle (some value)) ⟨solver, []⟩
  | taken {rest : List (VariableId × α)}
      (queue : solver.deferred = (target, value) :: rest) :
      Sets solver target value (Edit.takeValue target value rest)
        ⟨{ solver with deferred := rest }, [.valueTaken target value]⟩

variable {solver : Solver α} {work : Edit α (List VariableId)}
  {first draft : Draft α} {target : VariableId} {value : α}
  {moved : List VariableId}

theorem solves_or_sets
    (isWork : (∃ task : Task α, work = task.edit) ∨
      solver.nextDeferred = some work) :
    solver.Solves work ∨ (∃ handle, work = Edit.setValue handle none) ∨
      ∃ target value first, solver.Sets target value work first := by
  rcases isWork with ⟨task, rfl⟩ | next
  · by_cases sets : ∃ handle quantity, task = .setValue handle quantity
    · rcases sets with ⟨handle, _ | value, rfl⟩
      · exact .inr (.inl ⟨handle, rfl⟩)
      · exact .inr (.inr ⟨handle.id, value, _, .asked rfl⟩)
    · exact .inl (.asked fun handle quantity same =>
        sets ⟨handle, quantity, same⟩)
  · rcases nextDeferred_cases next with ⟨target, value, rest, queue, rfl⟩
      | ⟨_, _, rfl⟩
    · exact .inr (.inr ⟨target, value, _, .taken queue⟩)
    · exact .inl (.taken next)

theorem Solves.isWork (solves : solver.Solves work) :
    (∃ task : Task α, work = task.edit) ∨ solver.nextDeferred = some work := by
  cases solves with
  | @asked task _ => exact .inl ⟨task, rfl⟩
  | taken next => exact .inr next

theorem Solves.tells (solves : solver.Solves work)
    (nodup : solver.unknowns.keys.Nodup) (idle : solver.dispatching = false)
    (yields : work.Yields ⟨solver, []⟩ (.ok moved) draft) :
    solver.Tells draft.notes draft.solver moved := by
  cases solves with
  | @asked task solves =>
      rcases task.telling solves _ _ _ nodup idle yields with
        ⟨notes, isNotes, tells⟩
      rw [isNotes, List.append_nil]
      exact tells
  | taken _ =>
      simp only [Edit.takeSolve, Edit.yields_note_bind] at yields
      rcases Edit.writeSolution_telling _ _ _ nodup idle yields with
        ⟨notes, isNotes, tells⟩
      rw [isNotes]
      exact tells.append_unsolved rfl

namespace Sets

theorem isWork (sets : solver.Sets target value work first) :
    (∃ task : Task α, work = task.edit) ∨ solver.nextDeferred = some work := by
  cases sets with
  | @asked handle _ => exact .inl ⟨.setValue handle (some value), rfl⟩
  | taken queue => exact .inr (nextDeferred_of_queued queue)

theorem ignored {result : Except (Failure α) (List VariableId)}
    (sets : solver.Sets target value work first)
    (idle : solver.dispatching = false) (ignores : solver.Ignores target value)
    (yields : work.Yields ⟨solver, []⟩ result draft) :
    draft = first ∧ ∀ moved, result = .ok moved → moved = [] := by
  cases sets with
  | asked isTarget =>
      rcases Edit.setValue_cases idle yields with ⟨⟨failure, rfl⟩, same⟩
        | applied
      · exact ⟨same, fun _ impossible => nomatch impossible⟩
      · rw [← isTarget] at ignores
        exact Edit.applyValue_of_ignores ignores applied
  | taken queue =>
      simp only [Edit.takeValue, Edit.yields_update_bind, Edit.yields_note_bind]
        at yields
      exact Edit.applyValue_of_ignores ignores yields

theorem tells (sets : solver.Sets target value work first)
    (nodup : solver.unknowns.keys.Nodup) (idle : solver.dispatching = false)
    (heeds : ¬solver.Ignores target value)
    (yields : work.Yields ⟨solver, []⟩ (.ok moved) draft) :
    ∃ others, solver.Tells draft.notes draft.solver others ∧
      moved = others.filter (fun other => other ≠ target) ++ [target] := by
  cases sets with
  | asked isTarget =>
      subst isTarget
      rcases Edit.setValue_cases idle yields with ⟨⟨_, impossible⟩, _⟩ | applied
      · cases impossible
      · rcases Edit.applyValue_tells nodup idle heeds applied with
          ⟨notes, others, isNotes, tells, isMoved⟩
        rw [isNotes, List.append_nil]
        exact ⟨others, tells, isMoved⟩
  | taken queue =>
      simp only [Edit.takeValue, Edit.yields_update_bind, Edit.yields_note_bind]
        at yields
      rcases Edit.applyValue_tells nodup idle heeds yields with
        ⟨notes, others, isNotes, tells, isMoved⟩
      rw [isNotes]
      exact ⟨others, tells.append_unsolved rfl, isMoved⟩

end Sets

end Solver

end LiveLinear
