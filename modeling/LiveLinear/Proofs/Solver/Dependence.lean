import LiveLinear.Proofs.Solver.Rearranging

namespace LiveLinear

/-! # Dependent columns

With exact arithmetic and tolerance zero, a variable is left free exactly if its
column of coefficients is a linear combination of the columns before it. Values
that solve the homogeneous constraints and end at the variable are such a
combination, divided by the last of them: nothing has to be said about the steps
of the elimination. -/

namespace Constraint

def coefficientOf (constraint : Constraint ℚ) (id : VariableId) : ℚ :=
  (constraint.terms.get? id).getD 0

def SameCoefficients (constraint other : Constraint ℚ) : Prop :=
  ∀ id, other.coefficientOf id = constraint.coefficientOf id

end Constraint

namespace Solver

variable {solver other : Solver ℚ}

/-- The variables that were added before this one. -/
def earlier (solver : Solver ℚ) (id : VariableId) : List VariableId :=
  solver.unknowns.keys.takeWhile fun other => other ≠ id

def Dependent (solver : Solver ℚ) (id : VariableId) : Prop :=
  ∃ weights : VariableId → ℚ, ∀ constraint ∈ solver.constraints.values,
    constraint.coefficientOf id =
      ((solver.earlier id).map fun other =>
        weights other * constraint.coefficientOf other).sum

open scoped Classical in
/-- The variables with a dependent column, in order. -/
noncomputable def dependents (solver : Solver ℚ) : List VariableId :=
  solver.unknowns.keys.filter fun id => solver.Dependent id

theorem dependents_sublist (solver : Solver ℚ) :
    solver.dependents.Sublist solver.unknowns.keys :=
  List.filter_sublist

theorem mem_dependents {id : VariableId} :
    id ∈ solver.dependents ↔ id ∈ solver.unknowns.keys ∧
    solver.Dependent id := by
  simp [dependents]

/-- The same variables in the same order, and constraints with the same
coefficients in some order. -/
structure SameColumns (solver other : Solver ℚ) : Prop where
  keys : other.unknowns.keys = solver.unknowns.keys
  constraints :
    Rearranged Constraint.SameCoefficients solver.constraints.values
      other.constraints.values

theorem exists_keys_eq (solver : Solver ℚ) {id : VariableId}
    (live : id ∈ solver.unknowns.keys) :
    ∃ later, solver.unknowns.keys = solver.earlier id ++ id :: later := by
  rcases List.eq_append_cons_of_mem live with ⟨before, later, keys, fresh⟩
  have others : ∀ other ∈ before, decide (other ≠ id) = true := by
    intro other member
    exact decide_eq_true (ne_of_mem_of_not_mem member fresh)
  have isBefore : solver.earlier id = before := by
    rw [earlier, keys, List.takeWhile_append_of_pos others,
      List.takeWhile_cons_of_neg (by simp), List.append_nil]
  exact ⟨later, isBefore ▸ keys⟩

namespace Coherent

variable (coherent : solver.Coherent)

include coherent

theorem holdsAt_rescale_zero_iff {constraint : Constraint ℚ}
    (isOver : constraint.Over solver.unknowns.keys) (values : VariableId → ℚ) :
    (constraint.rescale 0).HoldsAt values ↔
      (solver.unknowns.keys.map fun id =>
        values id * constraint.coefficientOf id).sum = 0 := by
  have live : ∀ id ∈ constraint.terms.keys, ∃ column,
      solver.columnId column = id :=
    fun id member => exists_columnId (isOver.live id member)
  have columns :
      (constraint.terms.entries.map fun term => term.2 * values term.1).sum =
        (solver.unknowns.keys.map fun id =>
          values id * constraint.coefficientOf id).sum := by
    rw [sum_terms_eq_sum_columns coherent.columnId_injective values
      isOver.nodup live, keys_eq_map_entry, List.map_map, ← Fin.sum_univ_def]
    simp only [Function.comp_apply, Constraint.coefficientOf, mul_comm]
  rw [Constraint.HoldsAt, Constraint.rescale, zero_mul, columns]

/-- What is weighed up to a variable, if nothing is weighed behind it. -/
theorem sum_map_keys {id : VariableId} (live : id ∈ solver.unknowns.keys)
    {values : VariableId → ℚ}
    (zeros : ∀ later ∈ solver.unknowns.keys, id < later → values later = 0)
    (constraint : Constraint ℚ) :
    (solver.unknowns.keys.map fun other =>
      values other * constraint.coefficientOf other).sum =
        ((solver.earlier id).map fun other =>
          values other * constraint.coefficientOf other).sum + values id *
            constraint.coefficientOf id := by
  rcases solver.exists_keys_eq live with ⟨later, keys⟩
  have ordered := coherent.unknownsOrdered
  rw [keys, List.pairwise_append, List.pairwise_cons] at ordered
  have nothing :
      (later.map fun other =>
        values other * constraint.coefficientOf other).sum = 0 := by
    apply List.sum_eq_zero
    intro product member
    rcases List.mem_map.mp member with ⟨other, isLater, rfl⟩
    have inKeys : other ∈ solver.unknowns.keys := by
      rw [keys]
      exact List.mem_append_right _ (List.mem_cons_of_mem _ isLater)
    rw [zeros other inKeys (ordered.2.1.1 other isLater), zero_mul]
  rw [keys, List.map_append, List.sum_append, List.map_cons, List.sum_cons,
    nothing, add_zero]

theorem lt_of_mem_earlier {id other : VariableId}
    (live : id ∈ solver.unknowns.keys) (member : other ∈ solver.earlier id) :
    other < id := by
  rcases solver.exists_keys_eq live with ⟨later, keys⟩
  have ordered := coherent.unknownsOrdered
  rw [keys, List.pairwise_append] at ordered
  exact ordered.2.2 other member id List.mem_cons_self

/-- Values that solve the homogeneous constraints and end at a variable are
weights for the variables before it, but for a factor. -/
theorem dependent_iff {id : VariableId} (live : id ∈ solver.unknowns.keys) :
    solver.Dependent id ↔ ∃ values, solver.SolvedBy 0 values ∧ values id ≠ 0 ∧
      ∀ later ∈ solver.unknowns.keys, id < later → values later = 0 := by
  constructor
  · rintro ⟨weights, combined⟩
    let values : VariableId → ℚ := fun other =>
      if other < id then weights other else if other = id then -1 else 0
    have atId : values id = -1 := by simp [values]
    have zeros : ∀ later ∈ solver.unknowns.keys, id < later →
        values later = 0 := by
      intro later _ after
      simp [values, after.not_gt, after.ne']
    refine ⟨values, fun constraint member => ?_, by simp [atId], zeros⟩
    have weighed : ((solver.earlier id).map fun other =>
        values other * constraint.coefficientOf other) =
          (solver.earlier id).map fun other =>
          weights other * constraint.coefficientOf other := by
      apply List.map_congr_left
      intro other isEarlier
      simp only [values, if_pos (coherent.lt_of_mem_earlier live isEarlier)]
    rw [coherent.holdsAt_rescale_zero_iff
      (coherent.constraintsOver constraint member),
      coherent.sum_map_keys live zeros, weighed, atId,
      ← combined constraint member]
    ring
  · rintro ⟨values, solved, nonzero, zeros⟩
    refine ⟨fun other => -(values id)⁻¹ * values other,
      fun constraint member => ?_⟩
    have balanced := (coherent.holdsAt_rescale_zero_iff
      (coherent.constraintsOver constraint member) values).mp
      (solved constraint member)
    rw [coherent.sum_map_keys live zeros] at balanced
    simp only [mul_assoc, List.sum_map_mul_left]
    rw [eq_neg_of_add_eq_zero_left balanced]
    field_simp

end Coherent

theorem Coherent.freeIds_eq (coherent : solver.Coherent)
    {tableau : Tableau ℚ solver.unknowns.size}
    (assembled : solver.assemble = .ok tableau)
    (isZero : tableau.tolerance = 0) :
    solver.freeIds tableau.reduce = solver.dependents := by
  apply coherent.freeIds_ordered.eq_of_mem_iff
    (coherent.unknownsOrdered.sublist solver.dependents_sublist)
  intro id
  rw [coherent.mem_freeIds_iff assembled isZero, mem_dependents]
  exact and_congr_right fun live => (coherent.dependent_iff live).symm

theorem SameColumns.dependents_eq (same : solver.SameColumns other) :
    other.dependents = solver.dependents := by
  rw [dependents, dependents, same.keys]
  apply List.filter_congr
  intro id _
  rw [decide_eq_decide]
  apply exists_congr
  intro weights
  symm
  apply same.constraints.forall_mem_iff
  intro constraint _ another _ coefficients
  simp only [earlier, same.keys, coefficients _]

end Solver

end LiveLinear
