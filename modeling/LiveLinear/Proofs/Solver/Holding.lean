import LiveLinear.Proofs.Solver.Coherence
import LiveLinear.Proofs.Solver.Writing

namespace LiveLinear

/-! # Holding a variable

What releasing, pinning and holding a variable make of the tables of a
solver. -/

variable {α : Type}

def Constraint.pinning [Scalar α] (id : VariableId) (value : α) :
    Constraint α :=
  { terms := Table.empty.put id 1
    sum := value
    origin := .pin }

namespace Solver

variable {solver : Solver α} {id : VariableId} {former : Variable α} {value : α}

/-- The constraint that holds a variable, if the variable is there and
locked. -/
def lockOf (solver : Solver α) (id : VariableId) : Option ConstraintId :=
  (solver.unknowns.get? id).bind Variable.lock

/-- The constraints but for the one that holds the variable. -/
def apart (solver : Solver α) (id : VariableId) :
    Table ConstraintId (Constraint α) :=
  match solver.lockOf id with
  | some held => solver.constraints.erase held
  | none => solver.constraints

theorem lockOf_of_get? (found : solver.unknowns.get? id = some former) :
    solver.lockOf id = former.lock := by
  rw [lockOf, found]
  rfl

theorem apart_of_unlocked (unlocked : solver.lockOf id = none) :
    solver.apart id = solver.constraints := by
  rw [apart, unlocked]

theorem keys_apart_subset (solver : Solver α) (id : VariableId) :
    ∀ held ∈ (solver.apart id).keys, held ∈ solver.constraints.keys := by
  intro held member
  unfold apart at member
  split at member
  · exact (Table.mem_keys_erase.mp member).1
  · exact member

theorem values_apart_subset (solver : Solver α) (id : VariableId) :
    (solver.apart id).values ⊆ solver.constraints.values := by
  unfold apart
  split
  · exact (Table.values_erase_sublist _ _).subset
  · exact List.Subset.refl _

theorem fresh_apart (coherent : solver.Coherent) :
    (solver.nextConstraint : ConstraintId) ∉ (solver.apart id).keys :=
  fun member => coherent.fresh_constraint (keys_apart_subset solver id _ member)

theorem release_eq (coherent : solver.Coherent) (id : VariableId) :
    solver.release id =
      { solver with
        unknowns := solver.unknowns.modify id fun contents =>
          { contents with lock := none }
        constraints := solver.apart id } := by
  have unchanged (unlocked : solver.lockOf id = none) :
      solver.unknowns.modify id
        (fun contents => { contents with lock := none }) = solver.unknowns := by
    apply Table.modify_eq_self coherent.unknownsNodup
    intro contents found
    rw [lockOf_of_get? found] at unlocked
    rw [← unlocked]
  rcases found : solver.unknowns.get? id with _ | ⟨name, value, _ | held, hook⟩
  · have unlocked : solver.lockOf id = none := by rw [lockOf, found]; rfl
    rw [unchanged unlocked, apart_of_unlocked unlocked, release, found]
  · have unlocked := lockOf_of_get? found
    rw [unchanged unlocked, apart_of_unlocked unlocked, release, found]
  · simp [release, apart, lockOf, found, modifyVariable]

theorem pin_eq [Scalar α] (found : solver.unknowns.get? id = some former) :
    solver.pin id =
      { solver with
        unknowns := solver.unknowns.modify id fun contents =>
          { contents with lock := some (solver.nextConstraint : Int) }
        constraints := solver.constraints.put solver.nextConstraint
          (.pinning id former.value)
        nextConstraint := solver.nextConstraint + 1 } := by
  simp only [pin, found]
  rfl

theorem get?_modifyVariable (found : solver.unknowns.get? id = some former)
    (change : Variable α → Variable α) :
    (solver.modifyVariable id change).unknowns.get? id =
      some (change former) := by
  rw [modifyVariable, Table.get?_modify, if_pos rfl, found]
  rfl

theorem lockOf_modifyVariable (solver : Solver α) (id other : VariableId)
    {change : Variable α → Variable α}
    (same : ∀ contents, (change contents).lock = contents.lock) :
    (solver.modifyVariable id change).lockOf other = solver.lockOf other := by
  simp only [lockOf, modifyVariable, Table.get?_modify]
  split
  · cases solver.unknowns.get? other <;> simp [same]
  · rfl

theorem apart_storeValue (solver : Solver α) (id : VariableId) (value : α) :
    (solver.storeValue id value).apart id = solver.apart id := by
  have sameLock : (solver.storeValue id value).lockOf id = solver.lockOf id :=
    lockOf_modifyVariable solver id id fun _ => rfl
  rw [apart, sameLock, apart]
  rfl

theorem release_of_unlocked (unlocked : solver.lockOf id = none) :
    solver.release id = solver := by
  rcases found : solver.unknowns.get? id with _ | ⟨name, value, _ | held, hook⟩
  · rw [release, found]
  · rw [release, found]
  · rw [lockOf_of_get? found] at unlocked
    cases unlocked

@[simp] theorem keys_modifyVariable (solver : Solver α) (id : VariableId)
    (change : Variable α → Variable α) :
    (solver.modifyVariable id change).unknowns.keys = solver.unknowns.keys :=
  Table.keys_modify _ _ _

@[simp] theorem keys_release (solver : Solver α) (id : VariableId) :
    (solver.release id).unknowns.keys = solver.unknowns.keys := by
  unfold release
  split
  · exact keys_modifyVariable solver id _
  · rfl

section Pinning

variable [Scalar α]

@[simp] theorem keys_pin (solver : Solver α) (id : VariableId) :
    (solver.pin id).unknowns.keys = solver.unknowns.keys := by
  unfold pin
  split
  · rfl
  · exact keys_modifyVariable (solver.insertConstraint _) id _

@[simp] theorem keys_holdAt (solver : Solver α) (id : VariableId) (value : α) :
    (solver.holdAt id value).unknowns.keys = solver.unknowns.keys := by
  rw [holdAt, keys_pin, keys_release, storeValue, keys_modifyVariable]

/-- The variable gets the value and a lock of its own, in place of any other. -/
theorem holdAt_eq (coherent : solver.Coherent)
    (found : solver.unknowns.get? id = some former) (value : α) :
    solver.holdAt id value =
      { solver with
        unknowns := solver.unknowns.modify id fun contents =>
          { contents with value, lock := some (solver.nextConstraint : Int) }
        constraints :=
          (solver.apart id).put solver.nextConstraint (.pinning id value)
        nextConstraint := solver.nextConstraint + 1 } := by
  have stored := coherent.storeValue id value
  have released : ((solver.storeValue id value).release id).unknowns.get? id =
      some { former with value, lock := none } := by
    rw [release_eq stored, Table.get?_modify, if_pos rfl, storeValue,
      get?_modifyVariable found]
    rfl
  rw [holdAt, pin_eq released, release_eq stored, apart_storeValue]
  simp only [storeValue, modifyVariable, Table.modify_modify]
  rfl

theorem coherent_holdAt (coherent : solver.Coherent) (id : VariableId)
    (value : α) :
    (solver.holdAt id value).Coherent :=
  ((coherent.storeValue id value).release id).pin id

theorem apart_holdAt (coherent : solver.Coherent)
    (found : solver.unknowns.get? id = some former) (value : α) :
    (solver.holdAt id value).apart id = solver.apart id := by
  have locked : (solver.holdAt id value).lockOf id =
      some (solver.nextConstraint : ConstraintId) := by
    rw [holdAt_eq coherent found, lockOf, Table.get?_modify, if_pos rfl, found]
    rfl
  rw [apart, locked, holdAt_eq coherent found]
  exact Table.erase_put (fresh_apart coherent) _

/-- Holding a variable and giving it back its value comes down to releasing
it. -/
theorem release_holdAt (coherent : solver.Coherent)
    (found : solver.unknowns.get? id = some former) (value : α) :
    ((solver.holdAt id value).storeValue id former.value).release id =
      { solver.release id with nextConstraint := solver.nextConstraint +
        1 } := by
  have held := (coherent_holdAt coherent id value).storeValue id former.value
  have restored : solver.unknowns.modify id
        (fun contents =>
          { contents with value := former.value, lock := none }) =
      solver.unknowns.modify id fun contents =>
        { contents with lock := none } := by
    apply Table.modify_congr coherent.unknownsNodup
    intro contents isFormer
    rw [found] at isFormer
    cases isFormer
    rfl
  rw [release_eq held, apart_storeValue, apart_holdAt coherent found,
    release_eq coherent, ← restored]
  simp only [storeValue, modifyVariable, holdAt_eq coherent found,
    Table.modify_modify]
  rfl

/-- Pinning a variable that is not locked can be taken back. -/
theorem release_pin (coherent : solver.Coherent)
    (found : solver.unknowns.get? id = some former)
    (unlocked : former.lock = none) :
    (solver.pin id).release id =
      { solver with nextConstraint := solver.nextConstraint + 1 } := by
  have isUnlocked : solver.lockOf id = none :=
    (lockOf_of_get? found).trans unlocked
  have locked :
      (solver.pin id).lockOf id =
        some (solver.nextConstraint : ConstraintId) := by
    rw [pin_eq found, lockOf, Table.get?_modify, if_pos rfl, found]
    rfl
  have unlockedAgain : solver.unknowns.modify id
      (fun contents => { contents with lock := none }) = solver.unknowns := by
    apply Table.modify_eq_self coherent.unknownsNodup
    intro contents isFormer
    rw [found] at isFormer
    cases isFormer
    rw [← unlocked]
  rw [release_eq (coherent.pin id), apart, locked, pin_eq found]
  simp only [Table.modify_modify, Table.erase_put coherent.fresh_constraint]
  exact congrArg (fun unknowns =>
    { solver with unknowns, nextConstraint := solver.nextConstraint + 1 })
      unlockedAgain

/-! ## Letting go -/

theorem letGo_overConstrained (coherent : solver.Coherent)
    (found : solver.unknowns.get? id = some former) (value : α) :
    (solver.holdAt id value).letGo id former (.error .overConstrained) =
      if former.lock.isSome then
        { solver.release id with nextConstraint := solver.nextConstraint +
          1 }.pin id
      else { solver with nextConstraint := solver.nextConstraint + 1 } := by
  dsimp only [letGo]
  rw [release_holdAt coherent found]
  split
  · rfl
  · next unlocked =>
      have isUnlocked : solver.lockOf id = none := by
        rw [lockOf_of_get? found]
        simpa using unlocked
      rw [release_of_unlocked isUnlocked]
      have counted :
          { solver with nextConstraint := solver.nextConstraint + 1 }.lockOf
            id = none := isUnlocked
      exact release_of_unlocked counted

end Pinning

end Solver

end LiveLinear
