import LiveLinear.Proofs.Table
import LiveLinear.Solver.Edit

namespace LiveLinear

/-! # Coherence of a solver

The ids of variables and of constraints increase and stay below their counters,
and every constraint speaks of live variables only, of each at most once. Every
change of a solver that does not solve keeps this. -/

variable {α : Type u}

structure Constraint.Over (ids : List VariableId) (constraint : Constraint α) :
    Prop where
  nodup : constraint.terms.keys.Nodup
  live : ∀ id ∈ constraint.terms.keys, id ∈ ids

namespace Constraint.Over

variable {ids : List VariableId} {constraint : Constraint α}

theorem mono {more : List VariableId} (isOver : constraint.Over ids)
    (included : ∀ id ∈ ids, id ∈ more) : constraint.Over more :=
  ⟨isOver.nodup, fun id member => included id (isOver.live id member)⟩

theorem put (isOver : constraint.Over ids) {id : VariableId} (live : id ∈ ids)
    (coefficient : α) :
    { constraint with terms := constraint.terms.put id coefficient }.Over
      ids := by
  constructor
  · exact Table.nodup_keys_put isOver.nodup id coefficient
  · intro other member
    rcases Table.mem_keys_put.mp member with old | new
    · exact isOver.live other old
    · rw [new]
      exact live

theorem erase (isOver : constraint.Over ids) (id : VariableId) :
    { constraint with terms := constraint.terms.erase id }.Over ids := by
  constructor
  · exact isOver.nodup.sublist (Table.keys_erase_sublist _ _)
  · intro other member
    exact isOver.live other (Table.mem_keys_erase.mp member).1

end Constraint.Over

/-- What holds of the contents of every solver that was made by its own
operations. -/
structure Coherence (unknowns : Table VariableId (Variable α))
    (constraints : Table ConstraintId (Constraint α))
    (nextVariable nextConstraint : Nat) : Prop where
  unknownsOrdered : unknowns.keys.Pairwise (· < ·)
  unknownsBelow : ∀ id ∈ unknowns.keys, id < nextVariable
  constraintsOrdered : constraints.keys.Pairwise (· < ·)
  constraintsBelow : ∀ id ∈ constraints.keys, id < nextConstraint
  constraintsOver : ∀ constraint ∈ constraints.values,
    constraint.Over unknowns.keys

private theorem lt_count_succ {id : Int} {count : Nat} (below : id < count) :
    id < (count + 1 : Nat) := by
  omega

private theorem count_lt_succ (count : Nat) :
    (count : Int) < (count + 1 : Nat) := by
  omega

namespace Solver

def Coherent (solver : Solver α) : Prop :=
  Coherence solver.unknowns solver.constraints solver.nextVariable
    solver.nextConstraint

theorem coherent_empty (id : SolverId) (settings : Settings α) :
    (empty id settings).Coherent := by
  constructor <;> simp [empty]

/-! ## Live variables -/

section Handles

variable {solver : Solver α}

theorem mem_keys_of_checkVariable {argument : Argument} {id : VariableId}
    (checked : solver.checkVariable argument = .ok id) :
    id ∈ solver.unknowns.keys := by
  unfold checkVariable at checked
  split at checked
  · cases checked
  · split at checked
    · cases checked
    · split at checked
      · next present =>
          cases checked
          exact (Table.contains_eq_true_iff _ _).mp present
      · cases checked

theorem get?_of_variableAt {handle : VariableHandle} {contents : Variable α}
    (found : solver.variableAt handle = .ok contents) :
    solver.unknowns.get? handle.id = some contents := by
  unfold variableAt at found
  split at found
  · cases found
  · split at found
    · next present =>
        cases found
        exact present
    · cases found

theorem get?_of_constraintAt {handle : ConstraintHandle}
    {contents : Constraint α}
    (found : solver.constraintAt handle = .ok contents) :
    solver.constraints.get? handle.id = some contents := by
  unfold constraintAt at found
  split at found
  · cases found
  · split at found
    · next present =>
        cases found
        exact present
    · cases found

theorem constraintAt_of_get? {id : SolverId} {held : ConstraintId}
    {contents : Constraint α} (numbered : solver.id = id)
    (present : solver.constraints.get? held = some contents) :
    solver.constraintAt ⟨id, held⟩ = .ok contents := by
  have own : ¬id ≠ solver.id := fun other => other numbered.symm
  simp only [constraintAt, if_neg own, present]

end Handles

namespace Coherent

variable {solver : Solver α}

theorem unknownsNodup (coherent : solver.Coherent) :
    solver.unknowns.keys.Nodup :=
  coherent.unknownsOrdered.imp Int.ne_of_lt

theorem constraintsNodup (coherent : solver.Coherent) :
    solver.constraints.keys.Nodup :=
  coherent.constraintsOrdered.imp Int.ne_of_lt

theorem fresh_variable (coherent : solver.Coherent) :
    (solver.nextVariable : VariableId) ∉ solver.unknowns.keys := by
  intro member
  exact Int.lt_irrefl _ (coherent.unknownsBelow _ member)

theorem fresh_constraint (coherent : solver.Coherent) :
    (solver.nextConstraint : ConstraintId) ∉ solver.constraints.keys := by
  intro member
  exact Int.lt_irrefl _ (coherent.constraintsBelow _ member)

/-! ## Variables -/

theorem insertVariable (coherent : solver.Coherent) (name : Option String)
    (value : α) :
    (solver.insertVariable name value).Coherent := by
  have keys : (solver.insertVariable name value).unknowns.keys =
      solver.unknowns.keys ++ [(solver.nextVariable : VariableId)] := by
    simp only [Solver.insertVariable, Table.keys_put,
      if_neg coherent.fresh_variable]
  constructor
  · rw [keys, List.pairwise_append]
    refine ⟨coherent.unknownsOrdered, List.pairwise_singleton _ _, ?_⟩
    intro id member next isNext
    rw [List.mem_singleton.mp isNext]
    exact coherent.unknownsBelow id member
  · intro id member
    rw [keys] at member
    rcases List.mem_append.mp member with old | new
    · exact lt_count_succ (coherent.unknownsBelow id old)
    · rw [List.mem_singleton.mp new]
      exact count_lt_succ _
  · exact coherent.constraintsOrdered
  · exact coherent.constraintsBelow
  · intro constraint member
    rw [keys]
    exact (coherent.constraintsOver constraint member).mono
      fun id live => List.mem_append_left _ live

theorem modifyVariable (coherent : solver.Coherent) (id : VariableId)
    (change : Variable α → Variable α) :
    (solver.modifyVariable id change).Coherent := by
  have keys :
      (solver.modifyVariable id change).unknowns.keys = solver.unknowns.keys :=
    Table.keys_modify _ _ _
  constructor
  · rw [keys]
    exact coherent.unknownsOrdered
  · rw [keys]
    exact coherent.unknownsBelow
  · exact coherent.constraintsOrdered
  · exact coherent.constraintsBelow
  · rw [keys]
    exact coherent.constraintsOver

theorem storeValue (coherent : solver.Coherent) (id : VariableId) (value : α) :
    (solver.storeValue id value).Coherent :=
  coherent.modifyVariable id _

theorem setHook (coherent : solver.Coherent) (id : VariableId)
    (hook : Option HookId) :
    (solver.setHook id hook).Coherent :=
  coherent.modifyVariable id _

/-! ## Constraints -/

theorem insertConstraint (coherent : solver.Coherent)
    {constraint : Constraint α}
    (isOver : constraint.Over solver.unknowns.keys) :
    (solver.insertConstraint constraint).Coherent := by
  have keys : (solver.insertConstraint constraint).constraints.keys =
      solver.constraints.keys ++ [(solver.nextConstraint : ConstraintId)] := by
    simp only [Solver.insertConstraint, Table.keys_put,
      if_neg coherent.fresh_constraint]
  constructor
  · exact coherent.unknownsOrdered
  · exact coherent.unknownsBelow
  · rw [keys, List.pairwise_append]
    refine ⟨coherent.constraintsOrdered, List.pairwise_singleton _ _, ?_⟩
    intro id member next isNext
    rw [List.mem_singleton.mp isNext]
    exact coherent.constraintsBelow id member
  · intro id member
    rw [keys] at member
    rcases List.mem_append.mp member with old | new
    · exact lt_count_succ (coherent.constraintsBelow id old)
    · rw [List.mem_singleton.mp new]
      exact count_lt_succ _
  · intro other member
    rcases Table.mem_values_put member with old | new
    · exact coherent.constraintsOver other old
    · rw [new]
      exact isOver

theorem modifyConstraint (coherent : solver.Coherent) (id : ConstraintId)
    {change : Constraint α → Constraint α}
    (keeps : ∀ constraint : Constraint α, constraint.Over solver.unknowns.keys →
      (change constraint).Over solver.unknowns.keys) :
    (solver.modifyConstraint id change).Coherent := by
  have keys : (solver.modifyConstraint id change).constraints.keys =
      solver.constraints.keys :=
    Table.keys_modify _ _ _
  constructor
  · exact coherent.unknownsOrdered
  · exact coherent.unknownsBelow
  · rw [keys]
    exact coherent.constraintsOrdered
  · rw [keys]
    exact coherent.constraintsBelow
  · intro constraint member
    rcases Table.mem_values_modify member with old | ⟨former, old, isChanged⟩
    · exact coherent.constraintsOver constraint old
    · rw [isChanged]
      exact keeps former (coherent.constraintsOver former old)

theorem eraseConstraints (coherent : solver.Coherent) (id : ConstraintId) :
    { solver with constraints := solver.constraints.erase id }.Coherent := by
  have keys := Table.keys_erase_sublist solver.constraints id
  constructor
  · exact coherent.unknownsOrdered
  · exact coherent.unknownsBelow
  · exact coherent.constraintsOrdered.sublist keys
  · intro other member
    exact coherent.constraintsBelow other (keys.subset member)
  · intro constraint member
    exact coherent.constraintsOver constraint
      ((Table.values_erase_sublist _ _).subset member)

theorem mapUnknowns (coherent : solver.Coherent)
    (change : Variable α → Variable α) :
    { solver with unknowns := solver.unknowns.map change }.Coherent := by
  constructor
  · rw [Table.keys_map]
    exact coherent.unknownsOrdered
  · rw [Table.keys_map]
    exact coherent.unknownsBelow
  · exact coherent.constraintsOrdered
  · exact coherent.constraintsBelow
  · rw [Table.keys_map]
    exact coherent.constraintsOver

theorem eraseConstraint (coherent : solver.Coherent) (id : ConstraintId) :
    (solver.eraseConstraint id).Coherent :=
  (coherent.eraseConstraints id).mapUnknowns _

/-! ## Locks -/

theorem pin [One α] (coherent : solver.Coherent) (id : VariableId) :
    (solver.pin id).Coherent := by
  unfold Solver.pin
  split
  · exact coherent
  · next contents found =>
      apply modifyVariable
      apply coherent.insertConstraint
      have keys : (Table.empty.put id (1 : α)).keys = [id] := rfl
      constructor
      · rw [keys]
        exact List.nodup_singleton id
      · intro other member
        rw [keys, List.mem_singleton] at member
        rw [member]
        exact Table.mem_keys_of_get? found

theorem release (coherent : solver.Coherent) (id : VariableId) :
    (solver.release id).Coherent := by
  unfold Solver.release
  split
  · next _ _ held _ _ =>
      exact (coherent.modifyVariable id _).eraseConstraints held
  · exact coherent

theorem eraseVariable (coherent : solver.Coherent) (id : VariableId) :
    (solver.eraseVariable id).Coherent := by
  have released := coherent.release id
  have keys := Table.keys_erase_sublist (solver.release id).unknowns id
  constructor
  · exact released.unknownsOrdered.sublist keys
  · intro other member
    exact released.unknownsBelow other (keys.subset member)
  · simp only [Solver.eraseVariable, Table.keys_map]
    exact released.constraintsOrdered
  · simp only [Solver.eraseVariable, Table.keys_map]
    exact released.constraintsBelow
  · intro constraint member
    simp only [Solver.eraseVariable, Table.values_map] at member
    rcases List.mem_map.mp member with ⟨former, present, rfl⟩
    have isOver := released.constraintsOver former present
    constructor
    · exact (isOver.erase id).nodup
    · intro other mentioned
      rcases Table.mem_keys_erase.mp mentioned with ⟨inFormer, different⟩
      exact Table.mem_keys_erase.mpr ⟨isOver.live other inFormer, different⟩

/-! ## Solving -/

theorem keys_storePoint [Scalar α] (solver : Solver α)
    (target : Vector α solver.unknowns.size) :
    (solver.storePoint target).unknowns.keys = solver.unknowns.keys := by
  apply List.ext_getElem
  · simp [Table.keys, Solver.storePoint, Table.size]
  · intro index _ _
    simp only [Table.keys, Solver.storePoint, Table.entry, List.getElem_map,
      List.getElem_ofFn]
    rfl

theorem storePoint [Scalar α] (coherent : solver.Coherent)
    (target : Vector α solver.unknowns.size) :
    (solver.storePoint target).Coherent := by
  constructor
  · rw [keys_storePoint]
    exact coherent.unknownsOrdered
  · rw [keys_storePoint]
    exact coherent.unknownsBelow
  · exact coherent.constraintsOrdered
  · exact coherent.constraintsBelow
  · rw [keys_storePoint]
    exact coherent.constraintsOver

end Coherent

end Solver

end LiveLinear
