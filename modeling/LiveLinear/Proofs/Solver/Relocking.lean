import LiveLinear.Proofs.Solver.Atomicity
import LiveLinear.Proofs.Solver.Representation

namespace LiveLinear

/-! # Locked variables that are refused a value

A locked variable that cannot have a value has its old one afterwards and is
locked again. It is a new constraint that locks it then, in the last place: the
one that did so before has been discarded, with whatever became of its terms and
its sum. -/

variable {α : Type}

namespace Solver

/-- Nothing has changed but that the constraint `fresh` locks the variable at
its value, in place of the constraint `held`. -/
structure Relocks [Scalar α] (before : Solver α) (id : VariableId)
    (held fresh : ConstraintId) (after : Solver α) : Prop where
  unknowns : after.unknowns =
    before.unknowns.modify id fun contents =>
      { contents with lock := some fresh }
  constraints : after.constraints.entries =
    (before.constraints.erase held).entries ++
      [(fresh, .pinning id (before.valueOf id))]
  wasThere : held ∈ before.constraints.keys
  isNew : ∀ other ∈ before.constraints.keys, other < fresh
  others : ∃ counter, after = { before.unpended with
    unknowns := after.unknowns
    constraints := after.constraints
    nextConstraint := counter }

namespace Relocks

variable [Scalar α] {before after : Solver α} {id : VariableId}
  {held fresh : ConstraintId}

theorem value? (relocks : before.Relocks id held fresh after)
    (other : VariableId) :
    (after.unknowns.get? other).map Variable.value =
      (before.unknowns.get? other).map Variable.value := by
  rw [relocks.unknowns, Table.get?_modify]
  split
  · rw [Option.map_map]
    rfl
  · rfl

theorem lockOf (relocks : before.Relocks id held fresh after)
    (locked : before.lockOf id = some held) : after.lockOf id = some fresh := by
  rw [Solver.lockOf, relocks.unknowns, Table.get?_modify, if_pos rfl]
  cases found : before.unknowns.get? id with
  | none =>
      rw [Solver.lockOf, found] at locked
      cases locked
  | some contents => rfl

theorem constraintAt (relocks : before.Relocks id held fresh after) :
    after.constraintAt ⟨before.id, held⟩ =
      .error (.constraintDeleted held) := by
  have isOld : held ≠ fresh :=
    Int.ne_of_lt (relocks.isNew held relocks.wasThere)
  have gone : after.constraints.get? held = none := by
    rw [Table.get?_eq_none_iff, Table.keys, relocks.constraints,
      List.map_append, List.mem_append]
    rintro (kept | isFresh)
    · exact (Table.mem_keys_erase.mp kept).2 rfl
    · exact isOld (List.mem_singleton.mp isFresh)
  rcases relocks.others with ⟨_, isAfter⟩
  have sameId : after.id = before.id := by rw [isAfter]; rfl
  simp only [Solver.constraintAt, sameId, gone, ne_eq, not_true_eq_false,
    if_false]

end Relocks

end Solver

namespace Solver

variable [Scalar α] {solver : Solver α}

/-- A locked variable that is let go because of a contradiction is locked
anew. -/
theorem letGo_of_locked (coherent : solver.Coherent) {id : VariableId}
    {former : Variable α} (found : solver.unknowns.get? id = some former)
    {held : ConstraintId} (locked : former.lock = some held) (value : α) :
    (solver.holdAt id value).letGo id former (.error .overConstrained) =
      { solver with
        unknowns := solver.unknowns.modify id fun contents =>
          { contents with lock := some (solver.nextConstraint + 1 : Nat) }
        constraints :=
          (solver.constraints.erase held).put (solver.nextConstraint + 1 : Nat)
            (.pinning id former.value)
        nextConstraint := solver.nextConstraint + 2 } := by
  have freed :
      (solver.unknowns.modify id fun contents =>
        { contents with lock := none }).get? id =
          some { former with lock := none } := by
    rw [Table.get?_modify, if_pos rfl, found]
    rfl
  have apart : solver.apart id = solver.constraints.erase held := by
    rw [Solver.apart, lockOf_of_get? found, locked]
  rw [letGo_overConstrained coherent found, locked, Option.isSome_some,
    if_pos rfl, release_eq coherent, apart]
  refine (pin_eq freed).trans ?_
  simp only [Table.modify_modify]
  rfl

end Solver

namespace Edit

variable [Scalar α] {before after : Draft α}

/-- A locked variable that cannot have the value is locked anew. -/
theorem setValue_relocks {handle : VariableHandle} {value : Option α}
    {held : ConstraintId} (represented : before.solver.Represented)
    (locked : before.solver.lockOf handle.id = some held)
    (yields : (setValue handle value).Yields before (.error .overConstrained)
      after) :
    before.solver.Relocks handle.id held
      (before.solver.nextConstraint + 1 : Nat) after.solver := by
  have coherent : before.solver.unpended.Coherent := represented.coherent
  rcases exists_applyValue_of_overConstrained yields with ⟨number, applied⟩
  rcases exists_letGo_of_overConstrained represented.coherent applied with
    ⟨former, found, isAfter⟩
  rcases Option.map_eq_some_iff.mp (represented.locked _ _ locked) with
    ⟨_, isHeld, _⟩
  rw [Solver.lockOf_of_get? found] at locked
  have relocked :=
    isAfter.trans (Solver.letGo_of_locked coherent found locked number)
  have isNew : ∀ other ∈ before.solver.constraints.keys,
      other < (before.solver.nextConstraint + 1 : Nat) := fun other member =>
    Int.lt_trans (represented.coherent.constraintsBelow other member)
      (Int.ofNat_lt.mpr (Nat.lt_succ_self _))
  have absent : ((before.solver.nextConstraint + 1 : Nat) : ConstraintId) ∉
      (before.solver.constraints.erase held).keys := fun member =>
    Int.lt_irrefl _ (isNew _ (Table.mem_keys_erase.mp member).1)
  constructor
  · rw [relocked]
    rfl
  · rw [relocked]
    simp only [Solver.unpended, Table.put_of_not_mem absent,
      Solver.valueOf, found, Option.map_some, Option.getD_some]
  · exact Table.mem_keys_of_get? isHeld
  · exact isNew
  · exact ⟨_, by rw [relocked]⟩

end Edit

end LiveLinear
