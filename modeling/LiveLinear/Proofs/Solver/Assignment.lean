import LiveLinear.Proofs.Solver.Representation
import LiveLinear.Proofs.Solver.Solvability

namespace LiveLinear

/-! # Giving a variable a value

With exact arithmetic, tolerance zero and automatic solving, a variable takes a
value if the constraints but for its own lock allow that, and otherwise nothing
has happened. -/

namespace Solver

variable {solver before after : Solver ℚ} {id : VariableId}
  {former : Variable ℚ} {value : ℚ}

/-- The constraints but for the lock of the variable can be satisfied while the
variable has the value. -/
def Admits (solver : Solver ℚ) (id : VariableId) (value : ℚ) : Prop :=
  ∃ values : VariableId → ℚ, values id = value ∧
    ∀ constraint ∈ (solver.apart id).values, constraint.HoldsAt values

theorem solvable_holdAt_iff (coherent : solver.Coherent)
    (found : solver.unknowns.get? id = some former) (value : ℚ) :
    (solver.holdAt id value).Solvable ↔ solver.Admits id value := by
  have constraints : (solver.holdAt id value).constraints.values =
      (solver.apart id).values ++ [.pinning id value] := by
    rw [holdAt_eq coherent found]
    exact Table.values_put_of_not_mem (fresh_apart coherent) _
  apply exists_congr
  intro values
  rw [constraints, List.forall_mem_append, List.forall_mem_singleton,
    Constraint.holdsAt_pinning, and_comm]

/-! ## The value is taken -/

/-- The variable has been given the value, and all else is as it must be. -/
structure Assigned (before after : Solver ℚ) (id : VariableId) (value : ℚ) :
    Prop where
  keys : after.unknowns.keys = before.unknowns.keys
  taken : after.valueOf id = value
  apart : after.apart id = before.apart id
  satisfied : after.Satisfied
  locked : (after.lockOf id).isSome = (before.lockOf id).isSome
  pinned : ∀ held, after.lockOf id = some held →
    after.constraints.get? held = some (.pinning id value)

theorem Assigned.unpended (assigned : before.Assigned after id value) :
    before.Assigned after.unpended id value :=
  ⟨assigned.keys, assigned.taken, assigned.apart, assigned.satisfied,
    assigned.locked, assigned.pinned⟩

theorem Assigned.residual_apart (assigned : before.Assigned after id value) :
    ∀ constraint ∈ (before.apart id).values, after.residual constraint = 0 := by
  rw [← assigned.apart]
  exact fun constraint member =>
    assigned.satisfied constraint (values_apart_subset after id member)

theorem apart_release (coherent : solver.Coherent) (id : VariableId) :
    (solver.release id).apart id = solver.apart id := by
  rw [apart_of_unlocked (lockOf_release_self solver id), release_eq coherent]

theorem keys_storePoint_holdAt
    (target : Vector ℚ (before.holdAt id value).unknowns.size) :
    ((before.holdAt id value).storePoint target).unknowns.keys =
      before.unknowns.keys := by
  rw [Coherent.keys_storePoint, keys_holdAt]

section Holding

variable (coherent : before.Coherent)
  (found : before.unknowns.get? id = some former)
  (target : Vector ℚ (before.holdAt id value).unknowns.size)
include coherent found

theorem lockOf_storePoint_holdAt :
    ((before.holdAt id value).storePoint target).lockOf id =
      some (before.nextConstraint : ConstraintId) := by
  rw [lockOf_storePoint, holdAt_eq coherent found, lockOf, Table.get?_modify,
    if_pos rfl, found]
  rfl

theorem constraints_storePoint_holdAt :
    ((before.holdAt id value).storePoint target).constraints =
      (before.apart id).put before.nextConstraint (.pinning id value) :=
  congrArg Solver.constraints (holdAt_eq coherent found value)

theorem apart_storePoint_holdAt :
    ((before.holdAt id value).storePoint target).apart id =
      before.apart id := by
  rw [apart, lockOf_storePoint_holdAt coherent found,
    constraints_storePoint_holdAt coherent found]
  exact Table.erase_put (fresh_apart coherent) _

theorem get?_storePoint_holdAt :
    ((before.holdAt id value).storePoint target).constraints.get?
      before.nextConstraint = some (.pinning id value) := by
  rw [constraints_storePoint_holdAt coherent found, Table.get?_put_self]

variable (satisfied : ((before.holdAt id value).storePoint target).Satisfied)
include satisfied

theorem valueOf_storePoint_holdAt :
    ((before.holdAt id value).storePoint target).valueOf id = value := by
  have isPinned := get?_storePoint_holdAt coherent found target
  have holds := satisfied _ (Table.mem_values_of_get? isPinned)
  exact Constraint.holdsAt_pinning.mp (residual_eq_zero_iff.mp holds)

theorem assigned_of_locked (isLocked : former.lock.isSome = true) :
    before.Assigned ((before.holdAt id value).storePoint target) id value := by
  have lock := lockOf_storePoint_holdAt coherent found target
  refine ⟨keys_storePoint_holdAt target,
    valueOf_storePoint_holdAt coherent found target satisfied,
    apart_storePoint_holdAt coherent found target, satisfied, ?_, ?_⟩
  · rw [lock, lockOf_of_get? found, isLocked]
    rfl
  · intro held isHeld
    rw [lock] at isHeld
    cases isHeld
    exact get?_storePoint_holdAt coherent found target

/-- A variable that was not locked is let go. -/
theorem assigned_of_unlocked (unlocked : former.lock = none) :
    before.Assigned (((before.holdAt id value).storePoint target).release id) id
      value := by
  have storedCoherent := (coherent_holdAt coherent id value).storePoint target
  have relaxes :=
    Relaxes.release ((before.holdAt id value).storePoint target) id
  have lock :=
    lockOf_release_self ((before.holdAt id value).storePoint target) id
  have live :
      id ∈ ((before.holdAt id value).storePoint target).unknowns.keys := by
    rw [keys_storePoint_holdAt target]
    exact Table.mem_keys_of_get? found
  refine ⟨?_, ?_, ?_, satisfied.relax storedCoherent relaxes, ?_, ?_⟩
  · rw [keys_release, keys_storePoint_holdAt target]
  · rw [relaxes.values id live]
    exact valueOf_storePoint_holdAt coherent found target satisfied
  · rw [apart_release storedCoherent]
    exact apart_storePoint_holdAt coherent found target
  · rw [lock, lockOf_of_get? found, unlocked]
  · intro held isHeld
    rw [lock] at isHeld
    cases isHeld

end Holding

/-! ## The value is refused -/

section Refusing

variable {α : Type} [Scalar α] {before : Solver α} {id : VariableId}
  {former : Variable α}

/-- The variables are the same. Each has the value it had, and is locked if it
was. -/
structure Restored (before after : Solver α) : Prop where
  keys : after.unknowns.keys = before.unknowns.keys
  values : ∀ id, after.valueOf id = before.valueOf id
  locks : ∀ id, (after.lockOf id).isSome = (before.lockOf id).isSome

theorem valueOf_release (solver : Solver α) (id other : VariableId) :
    (solver.release id).valueOf other = solver.valueOf other := by
  unfold release
  split
  · exact valueOf_modifyVariable solver id other fun _ => rfl
  · rfl

theorem valueOf_pin (solver : Solver α) (id other : VariableId) :
    (solver.pin id).valueOf other = solver.valueOf other := by
  unfold pin
  split
  · rfl
  · exact valueOf_modifyVariable (solver.insertConstraint _) id other
      fun _ => rfl

/-- A lock that has been taken away and put back, under another number. -/
theorem restored_repin (coherent : before.Coherent)
    (found : before.unknowns.get? id = some former)
    (isLocked : former.lock.isSome = true) (counter : Nat) :
    before.Restored
      ({ before.release id with nextConstraint := counter }.pin id) := by
  have released :
      (before.release id).unknowns.get? id =
        some { former with lock := none } := by
    rw [release_eq coherent, Table.get?_modify, if_pos rfl, found]
    rfl
  have recounted :
      { before.release id with nextConstraint := counter }.unknowns.get? id =
        some { former with lock := none } := released
  constructor
  · rw [keys_pin]
    exact keys_release before id
  · exact fun other =>
      (valueOf_pin _ id other).trans (valueOf_release before id other)
  · intro other
    rw [lockOf_pin recounted]
    split
    · next isIt => rw [isIt, lockOf_of_get? found, isLocked, Option.isSome_some]
    · next different =>
        have lock : (before.release id).lockOf other = before.lockOf other := by
          rw [lockOf_release coherent, if_neg different]
        exact congrArg Option.isSome lock

theorem restored_letGo (coherent : before.Coherent)
    (found : before.unknowns.get? id = some former) (value : α) :
    before.Restored
      ((before.holdAt id value).letGo id former (.error .overConstrained)) := by
  rw [letGo_overConstrained coherent found]
  split
  · next isLocked => exact restored_repin coherent found isLocked _
  · exact ⟨rfl, fun _ => rfl, fun _ => rfl⟩

end Refusing

end Solver

/-! ## The edit -/

structure Solver.Prompt (solver : Solver ℚ) : Prop where
  coherent : solver.Coherent
  exactly : solver.settings.Exact
  auto : solver.settings.autoSolve = true
  idle : solver.dispatching = false

theorem Solver.Prompt.holdAt {solver : Solver ℚ} (prompt : solver.Prompt)
    (id : VariableId) (value : ℚ) : (solver.holdAt id value).Prompt := by
  have same := SameMarks.holdAt solver id value
  refine ⟨coherent_holdAt prompt.coherent id value, ?_, ?_,
    same.dispatching.trans prompt.idle⟩
  · rw [same.settings]
    exact prompt.exactly
  · rw [same.settings]
    exact prompt.auto

namespace Draft.Applies

variable {before after : Draft ℚ} {id : VariableId} {former : Variable ℚ}
  {value : ℚ} {result : Except (Failure ℚ) (List VariableId)}

/-- Given to a solver that solves at once, a value that is news is held. -/
theorem exists_writes (applies : before.Applies id value result after)
    (prompt : before.solver.Prompt)
    (found : before.solver.unknowns.get? id = some former)
    (news : value ≠ former.value) :
    ∃ outcome middle, (before.solver.holdAt id value).Writes outcome middle ∧
      result = (outcome.map fun moved =>
        moved.filter (fun other => other ≠ id) ++ [id]) ∧
      after.solver = middle.letGo id former outcome := by
  cases applies with
  | absent absent =>
      rw [found] at absent
      cases absent
  | unread _ unread =>
      rw [Settings.toleranceFor, prompt.exactly.tolerance] at unread
      cases unread
  | noNews same given small =>
      rw [found] at same
      cases same
      rw [Settings.toleranceFor, prompt.exactly.tolerance] at given
      cases given
      have equal :=
        sub_eq_zero.mp (abs_nonpos_iff.mp (Scalar.negligible_iff.mp small))
      exact absurd equal news
  | held same _ _ written =>
      rw [found] at same
      cases same
      exact ⟨_, _,
        Edit.writes_of_writeIfAuto written (prompt.holdAt id value).auto,
        rfl, rfl⟩

theorem assigned (applies : before.Applies id value result after)
    (prompt : before.solver.Prompt)
    (found : before.solver.unknowns.get? id = some former)
    (news : value ≠ former.value) (admits : before.solver.Admits id value) :
    ∃ moved, result = .ok moved ∧
      before.solver.Assigned after.solver id value := by
  rcases applies.exists_writes prompt found news with
    ⟨outcome, middle, writes, rfl, isAfter⟩
  have held := prompt.holdAt id value
  have solvable :=
    (Solver.solvable_holdAt_iff prompt.coherent found value).mpr admits
  rcases writes.of_solvable held.idle held.coherent held.exactly solvable with
    ⟨moved, target, rfl, rfl, satisfied, _⟩
  refine ⟨_, rfl, ?_⟩
  rw [isAfter]
  dsimp only [Solver.letGo]
  split
  · next isLocked =>
      exact (Solver.assigned_of_locked prompt.coherent found target satisfied
        isLocked).unpended
  · next notLocked =>
      have unlocked : former.lock = none := by simpa using notLocked
      rw [← Solver.unpended_release]
      exact (Solver.assigned_of_unlocked prompt.coherent found target satisfied
        unlocked).unpended

theorem restored (applies : before.Applies id value result after)
    (prompt : before.solver.Prompt)
    (found : before.solver.unknowns.get? id = some former)
    (news : value ≠ former.value) (forbidden : ¬before.solver.Admits id value) :
    result = .error .overConstrained ∧ before.solver.Restored after.solver := by
  rcases applies.exists_writes prompt found news with
    ⟨outcome, middle, writes, rfl, isAfter⟩
  have held := prompt.holdAt id value
  have unsolvable :=
    mt (Solver.solvable_holdAt_iff prompt.coherent found value).mp forbidden
  rcases writes.of_unsolvable held.idle held.coherent held.exactly unsolvable
    with ⟨rfl, rfl⟩
  refine ⟨rfl, ?_⟩
  have sameCoherent : before.solver.unpended.Coherent := prompt.coherent
  have sameFound :
    before.solver.unpended.unknowns.get? id = some former := found
  have restored := Solver.restored_letGo sameCoherent sameFound value
  rw [isAfter, Solver.unpended_holdAt prompt.coherent found]
  exact ⟨restored.keys, restored.values, restored.locks⟩

end Draft.Applies

end LiveLinear
