import LiveLinear.Proofs.Solver.Atomicity
import LiveLinear.Proofs.Solver.Representation

namespace LiveLinear

/-! # Unpinning

While a value is given to a variable, the variable is pinned. Afterwards nothing
is left of that: what was locked is locked, what was not is not, and a variable
that was not locked has left no constraint behind. -/

variable {α : Type}

namespace Solver

/-- No variable has been locked or unlocked. -/
def KeepsLocks (before after : Solver α) : Prop :=
  ∀ id, (after.lockOf id).isSome = (before.lockOf id).isSome

variable {solver before middle after : Solver α} {id other : VariableId}

theorem KeepsLocks.of_same (same : ∀ id, after.lockOf id = before.lockOf id) :
    before.KeepsLocks after :=
  fun id => congrArg Option.isSome (same id)

theorem KeepsLocks.refl (solver : Solver α) : solver.KeepsLocks solver :=
  .of_same fun _ => rfl

theorem lockOf_release_of_ne (coherent : solver.Coherent)
    (different : other ≠ id) :
    (solver.release id).lockOf other = solver.lockOf other := by
  rw [lockOf_release coherent, if_neg different]

theorem constraints_release (coherent : solver.Coherent) (id : VariableId) :
    (solver.release id).constraints = solver.apart id := by
  rw [release_eq coherent]

theorem mem_keys_of_lockOf (locked : (solver.lockOf id).isSome = true) :
    id ∈ solver.unknowns.keys := by
  cases found : solver.unknowns.get? id with
  | none =>
      rw [lockOf, found] at locked
      cases locked
  | some contents => exact Table.mem_keys_of_get? found

variable [Scalar α]

theorem lockOf_pin_of_ne (solver : Solver α) (different : other ≠ id) :
    (solver.pin id).lockOf other = solver.lockOf other := by
  cases found : solver.unknowns.get? id with
  | none => rw [pin, found]
  | some contents => rw [lockOf_pin found, if_neg different]

theorem isSome_lockOf_pin (live : id ∈ solver.unknowns.keys) :
    ((solver.pin id).lockOf id).isSome = true := by
  cases found : solver.unknowns.get? id with
  | none => exact absurd live (Table.get?_eq_none_iff.mp found)
  | some contents =>
      rw [lockOf_pin found, if_pos rfl]
      rfl

theorem lockOf_holdAt (coherent : solver.Coherent) {former : Variable α}
    (found : solver.unknowns.get? id = some former) (value : α)
    (other : VariableId) :
    (solver.holdAt id value).lockOf other =
      if other = id then some (solver.nextConstraint : ConstraintId)
      else solver.lockOf other := by
  rw [holdAt_eq coherent found, lockOf, lockOf, Table.get?_modify]
  split
  · next same =>
      rw [same, found]
      rfl
  · rfl

theorem lockOf_letGo_of_ne (coherent : solver.Coherent) (former : Variable α)
    (outcome : Except (Failure α) (List VariableId)) (different : other ≠ id) :
    (solver.letGo id former outcome).lockOf other = solver.lockOf other := by
  have stored := coherent.storeValue id former.value
  have undoing : ((solver.storeValue id former.value).release id).lockOf other =
      solver.lockOf other := by
    rw [lockOf_release_of_ne stored different]
    exact lockOf_modifyVariable solver id other fun _ => rfl
  have letting : ∀ undone : Solver α,
      undone.Coherent ∧ undone.lockOf other = solver.lockOf other →
        (if former.lock.isSome then undone else undone.release id).lockOf
          other = solver.lockOf other := by
    rintro undone ⟨undoneCoherent, same⟩
    split
    · exact same
    · rw [lockOf_release_of_ne undoneCoherent different, same]
  apply letting
  split
  · dsimp only
    split
    · exact ⟨(stored.release id).pin id,
        (lockOf_pin_of_ne _ different).trans undoing⟩
    · exact ⟨stored.release id, undoing⟩
  · exact ⟨coherent, rfl⟩

theorem isSome_lockOf_letGo (former : Variable α)
    (outcome : Except (Failure α) (List VariableId))
    (locked : (solver.lockOf id).isSome = true) :
    ((solver.letGo id former outcome).lockOf id).isSome =
      former.lock.isSome := by
  unfold letGo
  cases isLocked : former.lock.isSome with
  | false =>
      simp only [Bool.false_eq_true, if_false, lockOf_release_self,
        Option.isSome_none]
  | true =>
      simp only [if_true]
      split
      · apply isSome_lockOf_pin
        rw [keys_release, storeValue, keys_modifyVariable]
        exact mem_keys_of_lockOf locked
      · exact locked

theorem constraints_letGo (coherent : solver.Coherent) {former : Variable α}
    (unlocked : former.lock = none)
    (outcome : Except (Failure α) (List VariableId)) :
    (solver.letGo id former outcome).constraints = solver.apart id := by
  have stored := coherent.storeValue id former.value
  have undone : ((solver.storeValue id former.value).release id).constraints =
      solver.apart id := by
    rw [constraints_release stored, apart_storeValue]
  unfold letGo
  simp only [unlocked, Option.isSome_none, Bool.false_eq_true, if_false]
  split
  · rw [release_of_unlocked (lockOf_release_self _ id)]
    exact undone
  · exact constraints_release coherent id

theorem Writes.lockOf {result : Except (Failure α) (List VariableId)}
    (writes : before.Writes result after) (id : VariableId) :
    after.lockOf id = before.lockOf id := by
  cases writes with
  | deferred _ | unassembled _ _ | refused _ _ _ _ => rfl
  | written _ _ _ => exact lockOf_storePoint before _ id

end Solver

/-! ## Giving a value -/

namespace Edit

variable [Scalar α] {before after : Draft α}
  {result : Except (Failure α) (List VariableId)}

theorem lockOf_writeIfAuto (yields : writeIfAuto.Yields before result after)
    (id : VariableId) :
    after.solver.lockOf id = before.solver.lockOf id := by
  rcases writeIfAuto_cases yields with ⟨_, writes⟩ | ⟨_, _, rfl⟩
  · exact writes.lockOf id
  · rfl

/-- What was locked is locked, whether or not the value has been given. -/
theorem applyValue_keepsLocks {id : VariableId} {value : α}
    (coherent : before.solver.Coherent)
    (yields : (applyValue id value).Yields before result after) :
    before.solver.KeepsLocks after.solver := by
  cases applyValue_cases yields with
  | absent _ | unread _ _ | noNews _ _ _ => exact .refl _
  | @held former _ outcome middle found _ _ written =>
      have isHeld := before.solver.coherent_holdAt coherent id value
      have stillCoherent := writeIfAuto_coheres _ _ _ written isHeld
      have locks := Solver.lockOf_holdAt coherent found value
      intro other
      by_cases same : other = id
      · subst other
        have locked : (middle.solver.lockOf id).isSome = true := by
          rw [lockOf_writeIfAuto written, locks, if_pos rfl]
          rfl
        rw [Solver.isSome_lockOf_letGo former outcome locked,
          Solver.lockOf_of_get? found]
      · rw [Solver.lockOf_letGo_of_ne stillCoherent former outcome same,
          lockOf_writeIfAuto written, locks, if_neg same]

/-- No constraint comes or goes with the value of a variable that is not
locked. -/
theorem constraints_applyValue {id : VariableId} {value : α}
    (coherent : before.solver.Coherent)
    (unlocked : before.solver.lockOf id = none)
    (yields : (applyValue id value).Yields before result after) :
    after.solver.constraints = before.solver.constraints := by
  cases applyValue_cases yields with
  | absent _ | unread _ _ | noNews _ _ _ => rfl
  | @held former _ outcome middle found _ _ written =>
      have isHeld := before.solver.coherent_holdAt coherent id value
      have stillCoherent := writeIfAuto_coheres _ _ _ written isHeld
      have notLocked : former.lock = none :=
        (Solver.lockOf_of_get? found).symm.trans unlocked
      have sameApart :
          middle.solver.apart id = (before.solver.holdAt id value).apart
            id := by
        rw [Solver.apart, Solver.apart, lockOf_writeIfAuto written,
          constraints_writeIfAuto written]
      calc (middle.solver.letGo id former outcome).constraints
          = middle.solver.apart id :=
          Solver.constraints_letGo stillCoherent notLocked outcome
        _ = before.solver.apart id :=
          sameApart.trans (Solver.apart_holdAt coherent found value)
        _ = before.solver.constraints := Solver.apart_of_unlocked unlocked

end Edit

/-! ## Stated constraints -/

namespace Solver

def KeepsStated (before after : Solver α) : Prop :=
  ∀ id constraint, constraint.origin = .stated →
    before.constraints.get? id = some constraint →
      after.constraints.get? id = some constraint

variable {solver before middle after : Solver α}

namespace KeepsStated

theorem of_constraints (same : after.constraints = before.constraints) :
    before.KeepsStated after :=
  fun _ _ _ found => same ▸ found

theorem trans (first : before.KeepsStated middle)
    (second : middle.KeepsStated after) : before.KeepsStated after :=
  fun id constraint stated found =>
    second id constraint stated (first id constraint stated found)

theorem release (represented : solver.Represented) (id : VariableId) :
    solver.KeepsStated (solver.release id) := by
  intro other constraint stated found
  rw [constraints_release represented.coherent, apart]
  split
  · next held lock =>
      have isPin := represented.locked id held lock
      rw [Table.get?_erase, if_neg]
      · exact found
      · rintro rfl
        rw [originOf, found, Option.map_some, stated] at isPin
        cases isPin
  · exact found

theorem pin [Scalar α] (coherent : solver.Coherent) (id : VariableId) :
    solver.KeepsStated (solver.pin id) := by
  intro other constraint _ found
  cases isThere : solver.unknowns.get? id with
  | none =>
      rw [Solver.pin, isThere]
      exact found
  | some contents =>
      rw [pin_eq isThere]
      have old : other ≠ (solver.nextConstraint : ConstraintId) := by
        rintro rfl
        exact coherent.fresh_constraint (Table.mem_keys_of_get? found)
      exact (Table.get?_put_of_ne old _).trans found

theorem storeAndRelease (represented : solver.Represented) (id : VariableId)
    (value : α) :
    solver.KeepsStated ((solver.storeValue id value).release id) := by
  have stored := (Evolves.storeValue solver id value).represented represented
  exact (of_constraints rfl).trans (.release stored id)

variable [Scalar α] (represented : solver.Represented) (id : VariableId)

include represented

theorem holdAt (value : α) : solver.KeepsStated (solver.holdAt id value) := by
  have released :=
    (Evolves.storeAndRelease solver id value).represented represented
  exact (storeAndRelease represented id value).trans
    (.pin released.coherent id)

theorem letGo (former : Variable α)
    (outcome : Except (Failure α) (List VariableId)) :
    solver.KeepsStated (solver.letGo id former outcome) := by
  have cleaned : ∀ undone : Solver α,
      solver.Evolves undone ∧ solver.KeepsStated undone → solver.KeepsStated
        (if former.lock.isSome then undone else undone.release id) := by
    rintro undone ⟨undoing, keeps⟩
    split
    · exact keeps
    · exact keeps.trans (.release (undoing.represented represented) id)
  apply cleaned
  split
  · have released := Evolves.storeAndRelease solver id former.value
    have keeps := storeAndRelease represented id former.value
    dsimp only
    split
    · exact ⟨released.trans (.repin _ id),
        keeps.trans (.pin (released.represented represented).coherent id)⟩
    · exact ⟨released, keeps⟩
  · exact ⟨.refl solver, of_constraints rfl⟩

end KeepsStated

end Solver

theorem Edit.applyValue_keepsStated [Scalar α] {before after : Draft α}
    {result : Except (Failure α) (List VariableId)} {id : VariableId}
    {value : α} (represented : before.solver.Represented)
    (yields : (applyValue id value).Yields before result after) :
    before.solver.KeepsStated after.solver := by
  cases applyValue_cases yields with
  | absent _ | unread _ _ | noNews _ _ _ => exact .of_constraints rfl
  | @held former _ outcome middle _ _ _ written =>
      have held := (Solver.Evolves.holdAt before.solver id value).represented
        represented
      have solved := (writeIfAuto_evolves _ _ _ written).represented held
      have pinned := Solver.KeepsStated.holdAt represented id value
      exact (pinned.trans
        (.of_constraints (constraints_writeIfAuto written))).trans
        (.letGo solved id former outcome)

/-! ## Items of deferred work -/

namespace Solver

variable [Scalar α] {solver : Solver α} {work : Edit α (List VariableId)}
  {draft : Draft α} {result : Except (Failure α) (List VariableId)}

def NextUnlocked (solver : Solver α) : Prop :=
  ∀ target value rest, solver.deferred = (target, value) :: rest →
    solver.lockOf target = none

theorem keepsLocks_of_nextDeferred (coherent : solver.Coherent)
    (next : solver.nextDeferred = some work)
    (yields : work.Yields ⟨solver, []⟩ result draft) :
    solver.KeepsLocks draft.solver := by
  rcases nextDeferred_cases next with ⟨target, value, rest, _, rfl⟩
    | ⟨_, _, rfl⟩
  · have started : { solver with deferred := rest }.Coherent := coherent
    exact Edit.applyValue_keepsLocks started yields
  · exact .of_same (Edit.writeSolution_cases yields).1.lockOf

theorem keepsStated_of_nextDeferred (represented : solver.Represented)
    (next : solver.nextDeferred = some work)
    (yields : work.Yields ⟨solver, []⟩ result draft) :
    solver.KeepsStated draft.solver := by
  rcases nextDeferred_cases next with
    ⟨target, value, rest, _, rfl⟩ | ⟨_, _, rfl⟩
  · have taken : solver.Evolves { solver with deferred := rest } :=
      SameContents.evolves ⟨rfl, rfl, rfl, rfl⟩
    exact Edit.applyValue_keepsStated (taken.represented represented) yields
  · exact .of_constraints (Edit.writeSolution_cases yields).1.constraints

theorem constraints_of_nextDeferred (coherent : solver.Coherent)
    (unlocked : solver.NextUnlocked) (next : solver.nextDeferred = some work)
    (yields : work.Yields ⟨solver, []⟩ result draft) :
    draft.solver.constraints = solver.constraints := by
  rcases nextDeferred_cases next with ⟨target, value, rest, queue, rfl⟩
    | ⟨_, _, rfl⟩
  · have started : { solver with deferred := rest }.Coherent := coherent
    exact Edit.constraints_applyValue started
      (unlocked target value rest queue) yields
  · exact (Edit.writeSolution_cases yields).1.constraints

theorem unknowns_of_nextDeferred (coherent : solver.Coherent)
    (unlocked : solver.NextUnlocked) (next : solver.nextDeferred = some work)
    (yields : work.Yields ⟨solver, []⟩ (.error .overConstrained) draft) :
    draft.solver.unknowns = solver.unknowns := by
  rcases nextDeferred_cases next with ⟨target, value, rest, queue, rfl⟩
    | ⟨_, _, rfl⟩
  · have started : { solver with deferred := rest }.Coherent := coherent
    rcases Edit.applyValue_overConstrained started
      (unlocked target value rest queue) yields with
      ⟨counter, _, isAfter⟩
    rw [isAfter]
    rfl
  · rw [Edit.writeSolution_overConstrained yields]
    rfl

end Solver

end LiveLinear
