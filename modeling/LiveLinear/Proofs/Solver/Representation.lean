import LiveLinear.Proofs.Solver.Upkeep

namespace LiveLinear

/-! # How solvers represent locks

A variable is locked by a constraint that was made for it and is still there,
and no such constraint is left without its variable. Every change keeps this,
and no change brings back an id. -/

variable {α : Type}

namespace Solver

/-- A coherent solver whose locks and pins belong together one to one. -/
structure Represented (solver : Solver α) : Prop where
  coherent : solver.Coherent
  locked (id : VariableId) (held : ConstraintId)
    (lock : solver.lockOf id = some held) :
    solver.originOf held = some .pin
  pinned (held : ConstraintId) (pin : solver.originOf held = some .pin) :
    ∃ id, solver.lockOf id = some held
  distinct (id other : VariableId) (held : ConstraintId)
    (lock : solver.lockOf id = some held)
    (otherLock : solver.lockOf other = some held) : id = other

/-! ## Locks and origins after a change -/

variable {solver before middle after : Solver α}

theorem originOf_erase (solver : Solver α) (id held : ConstraintId) :
    { solver with constraints := solver.constraints.erase id }.originOf held =
      if held = id then none else solver.originOf held := by
  simp only [originOf, Table.get?_erase]
  split <;> rfl

theorem originOf_put (solver : Solver α) (id held : ConstraintId)
    (constraint : Constraint α) :
    { solver with
      constraints := solver.constraints.put id constraint }.originOf held =
        if held = id then some constraint.origin else solver.originOf held := by
  simp only [originOf, Table.get?_put]
  split <;> rfl

theorem originOf_modifyConstraint (solver : Solver α) (id held : ConstraintId)
    {change : Constraint α → Constraint α}
    (same : ∀ constraint, (change constraint).origin = constraint.origin) :
    (solver.modifyConstraint id change).originOf held =
      solver.originOf held := by
  simp only [originOf, modifyConstraint, Table.get?_modify]
  split
  · cases solver.constraints.get? held <;> simp [same]
  · rfl

theorem lockOf_insertVariable (coherent : solver.Coherent)
    (name : Option String) (value : α) (id : VariableId) :
    (solver.insertVariable name value).lockOf id = solver.lockOf id := by
  simp only [lockOf, insertVariable, Table.get?_put]
  split
  · next isNew =>
      rw [isNew, Table.get?_eq_none_iff.mpr coherent.fresh_variable]
      rfl
  · rfl

theorem lockOf_release (coherent : solver.Coherent) (id other : VariableId) :
    (solver.release id).lockOf other = if other = id then none
      else solver.lockOf other := by
  rw [release_eq coherent]
  simp only [lockOf, Table.get?_modify]
  split
  · cases solver.unknowns.get? other <;> rfl
  · rfl

theorem originOf_release (coherent : solver.Coherent) (id : VariableId)
    (held : ConstraintId) :
    (solver.release id).originOf held =
      if solver.lockOf id = some held then none else solver.originOf held := by
  rw [release_eq coherent]
  cases lock : solver.lockOf id with
  | none => simp [originOf, apart, lock]
  | some other =>
      simp only [originOf, apart, lock, Table.get?_erase, Option.some.injEq,
        eq_comm]
      split <;> rfl

theorem lockOf_pin [Scalar α] {id : VariableId} {contents : Variable α}
    (found : solver.unknowns.get? id = some contents) (other : VariableId) :
    (solver.pin id).lockOf other =
      if other = id then some (solver.nextConstraint : ConstraintId)
      else solver.lockOf other := by
  rw [pin_eq found]
  simp only [lockOf, Table.get?_modify]
  split
  · next isId =>
      rw [isId, found]
      rfl
  · rfl

theorem originOf_pin [Scalar α] {id : VariableId} {contents : Variable α}
    (found : solver.unknowns.get? id = some contents) (held : ConstraintId) :
    (solver.pin id).originOf held =
      if held = (solver.nextConstraint : ConstraintId) then some .pin
      else solver.originOf held := by
  rw [pin_eq found]
  exact originOf_put solver _ held _

theorem lockOf_eraseVariable (solver : Solver α) (id other : VariableId) :
    (solver.eraseVariable id).lockOf other = (solver.release id).lockOf
      other := by
  simp only [lockOf, eraseVariable, Table.get?_erase]
  split
  · next isId =>
      have unlocked := lockOf_release_self solver id
      rw [isId]
      exact unlocked.symm
  · rfl

theorem originOf_eraseVariable (solver : Solver α) (id : VariableId)
    (held : ConstraintId) :
    (solver.eraseVariable id).originOf held = (solver.release id).originOf
      held := by
  simp only [originOf, eraseVariable, Table.get?_map, Option.map_map]
  rfl

theorem lockOf_eraseConstraint (solver : Solver α) (id : ConstraintId)
    (other : VariableId) :
    (solver.eraseConstraint id).lockOf other =
      if solver.lockOf other = some id then none else solver.lockOf other := by
  rcases found : solver.unknowns.get? other with _ | contents
  · simp [lockOf, eraseConstraint, Table.get?_map, found]
  · simp only [lockOf, eraseConstraint, Table.get?_map, found, Option.map_some,
      Option.bind_some]
    split <;> rfl

theorem locks_storePoint [Scalar α] (solver : Solver α)
    (target : Vector α solver.unknowns.size) :
    (solver.storePoint target).unknowns.map Variable.lock =
      solver.unknowns.map Variable.lock := by
  simp only [Table.map, Table.mk.injEq]
  apply List.ext_getElem
  · simp [storePoint, Table.size]
  · intro index _ _
    simp only [storePoint, Table.entry, List.getElem_map, List.getElem_ofFn]
    rfl

theorem lockOf_storePoint [Scalar α] (solver : Solver α)
    (target : Vector α solver.unknowns.size) (id : VariableId) :
    (solver.storePoint target).lockOf id = solver.lockOf id := by
  have locks : ∀ solver : Solver α,
      solver.lockOf id =
        ((solver.unknowns.map Variable.lock).get? id).join := by
    intro solver
    rw [lockOf, Table.get?_map]
    cases solver.unknowns.get? id <;> rfl
  rw [locks, locks, locks_storePoint]

/-! ## Every change keeps the representation -/

namespace Represented

theorem of_same (represented : before.Represented) (coherent : after.Coherent)
    (locks : ∀ id, after.lockOf id = before.lockOf id)
    (pins : ∀ held, after.originOf held = some .pin ↔
      before.originOf held = some .pin) :
    after.Represented := by
  refine ⟨coherent, ?_, ?_, ?_⟩
  · intro id held lock
    exact (pins held).mpr
      (represented.locked id held ((locks id).symm.trans lock))
  · intro held pin
    rcases represented.pinned held ((pins held).mp pin) with ⟨id, lock⟩
    exact ⟨id, (locks id).trans lock⟩
  · intro id other held lock otherLock
    exact represented.distinct id other held ((locks id).symm.trans lock)
      ((locks other).symm.trans otherLock)

/-- A lock and its pin go together. -/
theorem of_removed (represented : before.Represented)
    (coherent : after.Coherent) (gone : ConstraintId)
    (locks : ∀ id, after.lockOf id =
      if before.lockOf id = some gone then none else before.lockOf id)
    (origins : ∀ held, after.originOf held =
      if held = gone then none else before.originOf held) :
    after.Represented := by
  have former : ∀ {id held}, after.lockOf id = some held →
      held ≠ gone ∧ before.lockOf id = some held := by
    intro id held lock
    rw [locks] at lock
    split at lock
    · cases lock
    · next kept =>
        refine ⟨?_, lock⟩
        rintro rfl
        exact kept lock
  refine ⟨coherent, ?_, ?_, ?_⟩
  · intro id held lock
    rcases former lock with ⟨kept, formerLock⟩
    rw [origins, if_neg kept]
    exact represented.locked id held formerLock
  · intro held pin
    rw [origins] at pin
    split at pin
    · cases pin
    · next kept =>
        rcases represented.pinned held pin with ⟨id, lock⟩
        refine ⟨id, ?_⟩
        rw [locks, lock, if_neg]
        exact fun same => kept (Option.some.inj same)
  · intro id other held lock otherLock
    exact represented.distinct id other held (former lock).2
      (former otherLock).2

/-- A lock and its pin come together. -/
theorem of_added (represented : before.Represented) (coherent : after.Coherent)
    {id : VariableId} {fresh : ConstraintId}
    (unlocked : before.lockOf id = none)
    (isFresh : before.originOf fresh = none)
    (locks : ∀ other, after.lockOf other =
      if other = id then some fresh else before.lockOf other)
    (origins : ∀ held, after.originOf held =
      if held = fresh then some .pin else before.originOf held) :
    after.Represented := by
  have notFresh : ∀ {other}, before.lockOf other ≠ some fresh := by
    intro other lock
    have pin := represented.locked other fresh lock
    rw [isFresh] at pin
    cases pin
  refine ⟨coherent, ?_, ?_, ?_⟩
  · intro other held lock
    rw [locks] at lock
    rw [origins]
    split at lock
    · rw [if_pos (Option.some.inj lock).symm]
    · split
      · rfl
      · exact represented.locked other held lock
  · intro held pin
    rw [origins] at pin
    split at pin
    · next isNew => exact ⟨id, by rw [locks, if_pos rfl, isNew]⟩
    · rcases represented.pinned held pin with ⟨other, lock⟩
      refine ⟨other, ?_⟩
      rw [locks, if_neg, lock]
      rintro rfl
      rw [unlocked] at lock
      cases lock
  · intro first second held lock otherLock
    rw [locks] at lock otherLock
    split at lock
    · next isFirst =>
        split at otherLock
        · next isSecond => exact isFirst.trans isSecond.symm
        · exact absurd (otherLock.trans lock.symm) notFresh
    · split at otherLock
      · exact absurd (lock.trans otherLock.symm) notFresh
      · exact represented.distinct first second held lock otherLock

theorem release (represented : solver.Represented) (id : VariableId) :
    (solver.release id).Represented := by
  have coherent := represented.coherent
  cases lock : solver.lockOf id with
  | none =>
      rw [release_of_unlocked lock]
      exact represented
  | some gone =>
      apply represented.of_removed (coherent.release id) gone
      · intro other
        have isIt : solver.lockOf other = some gone ↔ other = id := by
          constructor
          · exact fun otherLock =>
              represented.distinct other id gone otherLock lock
          · rintro rfl
            exact lock
        rw [lockOf_release coherent]
        simp only [isIt]
      · intro held
        rw [originOf_release coherent, lock]
        simp only [Option.some.injEq, eq_comm (a := gone)]

theorem pin [Scalar α] (represented : solver.Represented) {id : VariableId}
    (unlocked : solver.lockOf id = none) : (solver.pin id).Represented := by
  have coherent := represented.coherent
  cases found : solver.unknowns.get? id with
  | none =>
      rw [Solver.pin, found]
      exact represented
  | some contents =>
      refine represented.of_added (coherent.pin id) unlocked ?_
        (lockOf_pin found) (originOf_pin found)
      rw [originOf, Table.get?_eq_none_iff.mpr coherent.fresh_constraint]
      rfl

theorem eraseConstraint (represented : solver.Represented) (id : ConstraintId) :
    (solver.eraseConstraint id).Represented :=
  represented.of_removed (represented.coherent.eraseConstraint id) id
    (lockOf_eraseConstraint solver id) (originOf_erase solver id)

theorem of_sameContents (represented : before.Represented)
    (same : before.SameContents after) : after.Represented := by
  apply represented.of_same (represented.coherent.of_sameContents same)
  · intro id
    rw [lockOf, same.unknowns, lockOf]
  · intro held
    rw [originOf, same.constraints, originOf]

theorem insertConstraint (represented : solver.Represented)
    {constraint : Constraint α} (isOver : constraint.Over solver.unknowns.keys)
    (stated : constraint.origin = .stated) :
    (solver.insertConstraint constraint).Represented := by
  have coherent := represented.coherent
  apply represented.of_same (coherent.insertConstraint isOver) fun _ => rfl
  intro held
  have inserted : (solver.insertConstraint constraint).originOf held = _ :=
    originOf_put solver _ held constraint
  rw [inserted, stated]
  split
  · next isFresh =>
      have absent := Table.get?_eq_none_iff.mpr coherent.fresh_constraint
      simp [originOf, isFresh, absent]
  · rfl

theorem dropConstraint (represented : solver.Represented) {id : ConstraintId}
    (stated : solver.originOf id = some .stated) :
    { solver with constraints := solver.constraints.erase id }.Represented := by
  apply represented.of_same (represented.coherent.eraseConstraints id)
    fun _ => rfl
  intro held
  rw [originOf_erase]
  split
  · next isIt => simp [isIt, stated]
  · rfl

theorem eraseVariable (represented : solver.Represented) (id : VariableId) :
    (solver.eraseVariable id).Represented := by
  apply (represented.release id).of_same (represented.coherent.eraseVariable id)
    (lockOf_eraseVariable solver id)
  intro held
  rw [originOf_eraseVariable]

end Represented

theorem Changes.represented (changes : before.Changes after)
    (represented : before.Represented) : after.Represented := by
  have coherent := changes.coherent represented.coherent
  cases changes with
  | marked same => exact represented.of_sameContents same
  | insertVariable name value =>
      exact represented.of_same coherent
        (lockOf_insertVariable represented.coherent name value) fun _ => Iff.rfl
  | modifyVariable id change sameLock =>
      exact represented.of_same coherent
        (fun other => lockOf_modifyVariable before id other sameLock) fun _ =>
        Iff.rfl
  | eraseVariable id => exact represented.eraseVariable id
  | insertConstraint isOver stated =>
      exact represented.insertConstraint isOver stated
  | modifyConstraint id change _ sameOrigin =>
      apply represented.of_same coherent fun _ => rfl
      intro held
      rw [originOf_modifyConstraint before id held sameOrigin]
  | dropConstraint stated => exact represented.dropConstraint stated
  | eraseConstraint id => exact represented.eraseConstraint id
  | pin unlocked => exact represented.pin unlocked
  | release id => exact represented.release id
  | storePoint target =>
      exact represented.of_same coherent (lockOf_storePoint before target)
        fun _ => Iff.rfl

theorem Evolves.represented (evolves : before.Evolves after)
    (represented : before.Represented) : after.Represented := by
  induction evolves with
  | refl => exact represented
  | tail _ changes induction => exact changes.represented induction

theorem represented_empty (id : SolverId) (settings : Settings α) :
    (empty id settings).Represented := by
  refine ⟨coherent_empty id settings, ?_, ?_, ?_⟩
  · intro _ _ lock
    cases lock
  · intro _ pin
    cases pin
  · intro _ _ _ lock
    cases lock

/-! ## Ids are not used again -/

/-- The ids that are live later were live before or had not been given out
yet. -/
structure Ages (before after : Solver α) : Prop where
  nextVariable : before.nextVariable ≤ after.nextVariable
  nextConstraint : before.nextConstraint ≤ after.nextConstraint
  unknowns : ∀ id ∈ after.unknowns.keys,
    id ∈ before.unknowns.keys ∨ (before.nextVariable : VariableId) ≤ id
  constraints : ∀ id ∈ after.constraints.keys,
    id ∈ before.constraints.keys ∨ (before.nextConstraint : ConstraintId) ≤ id

namespace Ages

theorem refl (solver : Solver α) : solver.Ages solver :=
  ⟨Nat.le_refl _, Nat.le_refl _, fun _ => .inl, fun _ => .inl⟩

theorem trans (left : before.Ages middle) (right : middle.Ages after) :
    before.Ages after := by
  refine ⟨Nat.le_trans left.nextVariable right.nextVariable,
    Nat.le_trans left.nextConstraint right.nextConstraint, ?_, ?_⟩
  · intro id live
    rcases right.unknowns id live with inMiddle | recent
    · exact left.unknowns id inMiddle
    · exact .inr (Int.le_trans (Int.ofNat_le.mpr left.nextVariable) recent)
  · intro id live
    rcases right.constraints id live with inMiddle | recent
    · exact left.constraints id inMiddle
    · exact .inr (Int.le_trans (Int.ofNat_le.mpr left.nextConstraint) recent)

theorem of_subset (nextVariable : after.nextVariable = before.nextVariable)
    (nextConstraint : after.nextConstraint = before.nextConstraint)
    (unknowns : ∀ id ∈ after.unknowns.keys, id ∈ before.unknowns.keys)
    (constraints : ∀ id ∈ after.constraints.keys,
      id ∈ before.constraints.keys) :
    before.Ages after :=
  ⟨Nat.le_of_eq nextVariable.symm, Nat.le_of_eq nextConstraint.symm,
    fun id live => .inl (unknowns id live), fun id live =>
    .inl (constraints id live)⟩

theorem insertVariable (solver : Solver α) (name : Option String) (value : α) :
    solver.Ages (solver.insertVariable name value) := by
  refine ⟨Nat.le_succ _, Nat.le_refl _, ?_, fun _ => .inl⟩
  intro id live
  rcases Table.mem_keys_put.mp live with old | isNew
  · exact .inl old
  · exact .inr (Int.le_of_eq isNew.symm)

theorem insertConstraint (solver : Solver α) (constraint : Constraint α) :
    solver.Ages (solver.insertConstraint constraint) := by
  refine ⟨Nat.le_refl _, Nat.le_succ _, fun _ => .inl, ?_⟩
  intro id live
  rcases Table.mem_keys_put.mp live with old | isNew
  · exact .inl old
  · exact .inr (Int.le_of_eq isNew.symm)

theorem modifyVariable (solver : Solver α) (id : VariableId)
    (change : Variable α → Variable α) :
    solver.Ages (solver.modifyVariable id change) := by
  refine of_subset rfl rfl ?_ fun _ live => live
  intro other live
  rwa [keys_modifyVariable] at live

theorem pin [Scalar α] (solver : Solver α) (id : VariableId) :
    solver.Ages (solver.pin id) := by
  unfold Solver.pin
  split
  · exact refl solver
  · exact (insertConstraint solver _).trans (modifyVariable _ id _)

theorem release (solver : Solver α) (id : VariableId) :
    solver.Ages (solver.release id) := by
  unfold Solver.release
  split
  · refine (modifyVariable solver id _).trans
      (of_subset rfl rfl (fun _ live => live) ?_)
    exact fun other live => (Table.mem_keys_erase.mp live).1
  · exact refl solver

end Ages

theorem Changes.ages (changes : before.Changes after) : before.Ages after := by
  cases changes with
  | marked same =>
      apply Ages.of_subset same.nextVariable same.nextConstraint
      · rw [same.unknowns]
        exact fun _ live => live
      · rw [same.constraints]
        exact fun _ live => live
  | insertVariable name value => exact .insertVariable before name value
  | modifyVariable id change _ => exact .modifyVariable before id change
  | eraseVariable id =>
      refine (Ages.release before id).trans (.of_subset rfl rfl ?_ ?_)
      · exact fun other live => (Table.mem_keys_erase.mp live).1
      · intro other live
        rwa [Solver.eraseVariable, Table.keys_map] at live
  | insertConstraint _ _ => exact .insertConstraint before _
  | modifyConstraint id change _ _ =>
      refine .of_subset rfl rfl (fun _ live => live) ?_
      intro other live
      rwa [Solver.modifyConstraint, Table.keys_modify] at live
  | dropConstraint _ =>
      exact .of_subset rfl rfl (fun _ live => live) fun _ live =>
        (Table.mem_keys_erase.mp live).1
  | eraseConstraint id =>
      refine .of_subset rfl rfl ?_ fun _ live =>
        (Table.mem_keys_erase.mp live).1
      intro other live
      rwa [Solver.eraseConstraint, Table.keys_map] at live
  | pin _ => exact .pin before _
  | release id => exact .release before id
  | storePoint target =>
      refine .of_subset rfl rfl ?_ fun _ live => live
      rw [Coherent.keys_storePoint]
      exact fun _ live => live

theorem Evolves.ages (evolves : before.Evolves after) : before.Ages after := by
  induction evolves with
  | refl => exact .refl before
  | tail _ changes induction => exact induction.trans changes.ages

theorem Ages.variable_gone (coherent : before.Coherent)
    (earlier : before.Ages middle) (later : middle.Ages after) {id : VariableId}
    (live : id ∈ before.unknowns.keys) (gone : id ∉ middle.unknowns.keys) :
    id ∉ after.unknowns.keys := by
  intro back
  rcases later.unknowns id back with present | recent
  · exact gone present
  · have counted := Int.ofNat_le.mpr earlier.nextVariable
    exact Int.not_lt.mpr (Int.le_trans counted recent)
      (coherent.unknownsBelow id live)

theorem Ages.constraint_gone (coherent : before.Coherent)
    (earlier : before.Ages middle) (later : middle.Ages after)
    {id : ConstraintId} (live : id ∈ before.constraints.keys)
    (gone : id ∉ middle.constraints.keys) : id ∉ after.constraints.keys := by
  intro back
  rcases later.constraints id back with present | recent
  · exact gone present
  · have counted := Int.ofNat_le.mpr earlier.nextConstraint
    exact Int.not_lt.mpr (Int.le_trans counted recent)
      (coherent.constraintsBelow id live)

end Solver

end LiveLinear
