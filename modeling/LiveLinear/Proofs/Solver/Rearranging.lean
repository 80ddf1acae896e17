import LiveLinear.Proofs.Elimination.Rearranging
import LiveLinear.Proofs.Solver.Diagnosis
import LiveLinear.Proofs.Solver.Solvability

namespace LiveLinear

/-! # Rearranged constraints

With exact arithmetic and tolerance zero, solvers whose constraints stand in
another order, or are multiplied by numbers other than zero, leave the same
variables free and write the same values. Nothing here compares columns of two
solvers: the free variables are told by values that solve the constraints with
all their sums set to zero. -/

namespace Constraint

def rescale (factor : ℚ) (constraint : Constraint ℚ) : Constraint ℚ :=
  { constraint with sum := factor * constraint.sum }

/-- The coefficients and the sum are all multiplied by one number, which is not
zero. A term that is missing is as good as a coefficient of zero. -/
def Multiplied (constraint other : Constraint ℚ) : Prop :=
  ∃ factor : ℚ, factor ≠ 0 ∧ other.sum = factor * constraint.sum ∧
    ∀ id,
    (other.terms.get? id).getD 0 = factor * (constraint.terms.get? id).getD 0

end Constraint

namespace Solver

variable {solver other : Solver ℚ}

def SolvedBy (solver : Solver ℚ) (factor : ℚ) (values : VariableId → ℚ) :
    Prop :=
  ∀ constraint ∈ solver.constraints.values,
    (constraint.rescale factor).HoldsAt values

theorem solvedBy_one_iff {values : VariableId → ℚ} :
    solver.SolvedBy 1 values ↔ ∀ constraint ∈ solver.constraints.values,
      constraint.HoldsAt values := by
  simp only [SolvedBy, Constraint.HoldsAt, Constraint.rescale, one_mul]

structure Alike (solver other : Solver ℚ) : Prop where
  keys : other.unknowns.keys = solver.unknowns.keys
  values : ∀ id ∈ solver.unknowns.keys, other.valueOf id = solver.valueOf id
  constraints :
    Rearranged Constraint.Multiplied solver.constraints.values
      other.constraints.values

namespace Coherent

variable (coherent : solver.Coherent)

include coherent

theorem allHold_pointAt_iff (factor : ℚ) (values : VariableId → ℚ) :
    Equation.AllHold factor solver.equations (solver.pointAt values) ↔
      solver.SolvedBy factor values := by
  simp only [Equation.AllHold, equations, List.forall_mem_map]
  apply forall₂_congr
  intro constraint member
  have isOver := coherent.constraintsOver constraint member
  have rescaled : (constraint.rescale factor).Over solver.unknowns.keys :=
    ⟨isOver.nodup, isOver.live⟩
  exact coherent.residual_pointAt rescaled values

/-- A multiple of a constraint is satisfied by the same values. -/
theorem holdsAt_rescale_iff {constraint multiple : Constraint ℚ}
    (isOver : constraint.Over solver.unknowns.keys)
    (multipleOver : multiple.Over solver.unknowns.keys)
    (multiplied : constraint.Multiplied multiple) (factor : ℚ)
    (values : VariableId → ℚ) :
    (constraint.rescale factor).HoldsAt values ↔
    (multiple.rescale factor).HoldsAt values := by
  have rescaled : (constraint.rescale factor).Over solver.unknowns.keys :=
    ⟨isOver.nodup, isOver.live⟩
  have multipleRescaled : (multiple.rescale factor).Over solver.unknowns.keys :=
    ⟨multipleOver.nodup, multipleOver.live⟩
  rw [← coherent.residual_pointAt rescaled,
    ← coherent.residual_pointAt multipleRescaled]
  rcases multiplied with ⟨multiplier, nonzero, sum, terms⟩
  have equations :
      (solver.equation constraint).Multiplied (solver.equation multiple) := by
    refine ⟨multiplier, nonzero, sum, fun column => ?_⟩
    rw [coefficient_equation, coefficient_equation]
    exact terms _
  exact equations.residual_eq_zero_iff factor _

theorem columnId_lt_iff {left right : Fin solver.unknowns.size} :
    solver.columnId left < solver.columnId right ↔ left < right := by
  have monotone : StrictMono solver.columnId := by
    intro left right before
    have ordered := coherent.unknownsOrdered
    rw [keys_eq_map_entry, List.pairwise_map] at ordered
    have atPlaces :=
      List.pairwise_iff_getElem.mp ordered left.val right.val (by simp)
        (by simp) before
    simpa using atPlaces
  exact monotone.lt_iff_lt

end Coherent

/-! ## Free variables -/

section Free

variable {tableau : Tableau ℚ solver.unknowns.size}

theorem Coherent.columnId_mem_freeIds_iff (coherent : solver.Coherent)
    {column : Fin solver.unknowns.size} :
    solver.columnId column ∈ solver.freeIds tableau ↔
    column ∉ tableau.pivotColumns := by
  rw [freeIds, List.mem_filterMap]
  constructor
  · rintro ⟨place, _, isId⟩ member
    split at isId
    · cases isId
    · next kept =>
        have same : place = column :=
          coherent.columnId_injective (Option.some.inj isId)
        rw [same, List.contains_eq_mem, decide_eq_true_iff] at kept
        exact kept member
  · intro free
    refine ⟨column, List.mem_finRange column, ?_⟩
    rw [List.contains_eq_mem, if_neg (by simpa using free)]

theorem Coherent.freeIds_ordered (coherent : solver.Coherent) :
    (solver.freeIds tableau).Pairwise (· < ·) := by
  apply List.Pairwise.filterMap _ _ (List.pairwise_lt_finRange _)
  intro left right before id isId another isAnother
  split at isId
  · cases isId
  · split at isAnother
    · cases isAnother
    · cases isId
      cases isAnother
      exact coherent.columnId_lt_iff.mpr before

/-- A variable is free exactly if values solve the homogeneous constraints that
end there. -/
theorem Coherent.mem_freeIds_iff (coherent : solver.Coherent)
    (assembled : solver.assemble = .ok tableau) (isZero : tableau.tolerance = 0)
    {id : VariableId} :
    id ∈ solver.freeIds tableau.reduce ↔
      id ∈ solver.unknowns.keys ∧ ∃ values, solver.SolvedBy 0 values ∧
        values id ≠ 0 ∧ ∀ later ∈ solver.unknowns.keys, id < later →
          values later = 0 := by
  have equations := (assemble_eq_ok assembled).1
  constructor
  · intro free
    have live := (freeIds_sublist_keys tableau.reduce).subset free
    refine ⟨live, ?_⟩
    rcases exists_columnId live with ⟨column, rfl⟩
    have notPivot := coherent.columnId_mem_freeIds_iff.mp free
    rw [tableau.mem_pivotColumns_reduce_iff isZero] at notPivot
    push Not at notPivot
    rcases notPivot with ⟨point, holds, ends⟩
    rcases coherent.exists_pointAt point with ⟨values, rfl⟩
    rw [equations, coherent.allHold_pointAt_iff] at holds
    refine ⟨values, holds, by simpa using ends.nonzero, ?_⟩
    intro later live after
    rcases exists_columnId live with ⟨place, rfl⟩
    have past := coherent.columnId_lt_iff.mp after
    simpa using ends.zeros place past
  · rintro ⟨live, values, solved, nonzero, zeros⟩
    rcases exists_columnId live with ⟨column, rfl⟩
    rw [coherent.columnId_mem_freeIds_iff,
      tableau.mem_pivotColumns_reduce_iff isZero]
    intro none
    apply none (solver.pointAt values)
    · rw [equations, coherent.allHold_pointAt_iff]
      exact solved
    · refine ⟨by simpa using nonzero, fun place past => ?_⟩
      rw [get_pointAt]
      have isKey : solver.columnId place ∈ solver.unknowns.keys := by
        rw [keys_eq_map_entry]
        exact List.mem_map_of_mem (List.mem_finRange place)
      exact zeros _ isKey (coherent.columnId_lt_iff.mpr past)

/-- Values that satisfy the constraints are known from those of the free
variables. -/
theorem Coherent.eq_of_agree (coherent : solver.Coherent)
    (assembled : solver.assemble = .ok tableau) (isZero : tableau.tolerance = 0)
    {left right : VariableId → ℚ} (leftSolves : solver.SolvedBy 1 left)
    (rightSolves : solver.SolvedBy 1 right)
    (agree : ∀ id ∈ solver.freeIds tableau.reduce, left id = right id) :
    ∀ id ∈ solver.unknowns.keys, left id = right id := by
  have equations := (assemble_eq_ok assembled).1
  have points : solver.pointAt left = solver.pointAt right := by
    apply tableau.eq_of_agree isZero
    · rw [equations]
      exact (coherent.allHold_pointAt_iff 1 left).mpr leftSolves
    · rw [equations]
      exact (coherent.allHold_pointAt_iff 1 right).mpr rightSolves
    · intro column free
      simpa using agree _ (coherent.columnId_mem_freeIds_iff.mpr free)
  intro id live
  rcases exists_columnId live with ⟨column, rfl⟩
  rw [← solver.get_pointAt left, points, get_pointAt]

end Free

/-! ## Writing -/

theorem Coherent.isOverConstrained_eq_false_iff (coherent : solver.Coherent)
    {tableau : Tableau ℚ solver.unknowns.size}
    (assembled : solver.assemble = .ok tableau)
    (isZero : tableau.tolerance = 0) :
    tableau.reduce.isOverConstrained = false ↔ solver.Solvable := by
  rw [← Bool.not_eq_true, tableau.isOverConstrained_reduce_iff isZero, not_not,
    (assemble_eq_ok assembled).1]
  exact coherent.exists_allHold_iff

theorem Coherent.solvedBy_storePoint (coherent : solver.Coherent)
    {target : Vector ℚ solver.unknowns.size}
    (holds : Equation.AllHold 1 solver.equations target) :
    solver.SolvedBy 1 (solver.storePoint target).valueOf := by
  have isTarget : solver.pointAt (solver.storePoint target).valueOf = target :=
    ext_get fun column =>
      (solver.get_pointAt _ column).trans
        (coherent.valueOf_storePoint target column)
  apply (coherent.allHold_pointAt_iff 1 _).mp
  rw [isTarget]
  exact holds

/-- A solve of constraints that can be satisfied satisfies them and keeps the
free variables. -/
theorem Writes.solved {result : Except (Failure ℚ) (List VariableId)}
    {after : Solver ℚ} (writes : solver.Writes result after)
    (idle : solver.dispatching = false) (coherent : solver.Coherent)
    {tableau : Tableau ℚ solver.unknowns.size}
    (assembled : solver.assemble = .ok tableau) (isZero : tableau.tolerance = 0)
    (solvable : solver.Solvable) :
    ∃ moved, result = .ok moved ∧ solver.SolvedBy 1 after.valueOf ∧
      ∀ id ∈ solver.freeIds tableau.reduce,
        after.valueOf id = solver.valueOf id := by
  have consistent :=
    (coherent.isOverConstrained_eq_false_iff assembled isZero).mpr solvable
  cases writes with
  | deferred busy =>
      rw [idle] at busy
      cases busy
  | unassembled _ failed =>
      rw [assembled] at failed
      cases failed
  | refused _ same contradiction _ =>
      rw [assembled] at same
      cases same
      rw [consistent] at contradiction
      cases contradiction
  | written _ same _ =>
      rw [assembled] at same
      cases same
      refine ⟨_, rfl, ?_, fun id free => ?_⟩
      · apply coherent.solvedBy_storePoint
        intro equation member
        rw [← (assemble_eq_ok assembled).1] at member
        rw [Equation.rescale_one]
        exact tableau.residual_solve_eq_zero _ isZero consistent member
      · exact valueOf_storePoint_of_free coherent.unknownsNodup free

/-! ## Solvers that are alike -/

namespace Alike

variable (alike : solver.Alike other) (coherent : solver.Coherent)
  (otherCoherent : other.Coherent)

include alike coherent otherCoherent

theorem solvedBy_iff (factor : ℚ) (values : VariableId → ℚ) :
    solver.SolvedBy factor values ↔ other.SolvedBy factor values := by
  apply alike.constraints.forall_mem_iff
  intro constraint member multiple isMultiple multiplied
  have multipleOver := otherCoherent.constraintsOver multiple isMultiple
  rw [alike.keys] at multipleOver
  exact coherent.holdsAt_rescale_iff
    (coherent.constraintsOver constraint member) multipleOver multiplied
    factor values

theorem solvable_iff : solver.Solvable ↔ other.Solvable := by
  apply exists_congr
  intro values
  rw [← solvedBy_one_iff, ← solvedBy_one_iff]
  exact alike.solvedBy_iff coherent otherCoherent 1 values

variable {tableau : Tableau ℚ solver.unknowns.size}
  {otherTableau : Tableau ℚ other.unknowns.size}
  (assembled : solver.assemble = .ok tableau)
  (otherAssembled : other.assemble = .ok otherTableau)
  (isZero : tableau.tolerance = 0) (otherIsZero : otherTableau.tolerance = 0)

include assembled otherAssembled isZero otherIsZero

theorem isOverConstrained_eq :
    tableau.reduce.isOverConstrained =
      otherTableau.reduce.isOverConstrained := by
  rw [Bool.eq_iff_iff, ← not_iff_not, Bool.not_eq_true, Bool.not_eq_true,
    coherent.isOverConstrained_eq_false_iff assembled isZero,
    otherCoherent.isOverConstrained_eq_false_iff otherAssembled otherIsZero]
  exact alike.solvable_iff coherent otherCoherent

theorem freeIds_eq :
    solver.freeIds tableau.reduce = other.freeIds otherTableau.reduce := by
  apply coherent.freeIds_ordered.eq_of_mem_iff otherCoherent.freeIds_ordered
  intro id
  rw [coherent.mem_freeIds_iff assembled isZero,
    otherCoherent.mem_freeIds_iff otherAssembled otherIsZero, alike.keys]
  simp only [alike.solvedBy_iff coherent otherCoherent]

theorem rank_eq : tableau.reduce.rank = otherTableau.reduce.rank := by
  have counted := solver.length_freeIds_reduce isZero.ge (isZero ▸ zero_lt_one)
  have otherCounted :=
    other.length_freeIds_reduce otherIsZero.ge (otherIsZero ▸ zero_lt_one)
  have sizes : other.unknowns.size = solver.unknowns.size := by
    rw [← Table.length_keys, alike.keys, Table.length_keys]
  rw [alike.freeIds_eq coherent otherCoherent assembled otherAssembled isZero
    otherIsZero]
    at counted
  omega

theorem isUnderConstrained_eq :
    tableau.reduce.isUnderConstrained =
      otherTableau.reduce.isUnderConstrained := by
  have sizes : other.unknowns.size = solver.unknowns.size := by
    rw [← Table.length_keys, alike.keys, Table.length_keys]
  have ranks :=
    alike.rank_eq coherent otherCoherent assembled otherAssembled isZero
      otherIsZero
  apply decide_eq_decide.mpr
  omega

/-- Solvers that are alike write the same values, if the constraints can be
satisfied. -/
theorem written (consistent : tableau.reduce.isOverConstrained = false)
    (idle : solver.dispatching = false) (otherIdle : other.dispatching = false)
    {result otherResult : Except (Failure ℚ) (List VariableId)}
    {after otherAfter : Solver ℚ} (writes : solver.Writes result after)
    (otherWrites : other.Writes otherResult otherAfter) :
    (∃ moved, result = .ok moved) ∧ (∃ moved, otherResult = .ok moved) ∧
      after.unknowns.keys = solver.unknowns.keys ∧
      otherAfter.unknowns.keys = solver.unknowns.keys ∧
      ∀ id ∈ solver.unknowns.keys,
        otherAfter.valueOf id = after.valueOf id := by
  have solvable :=
    (coherent.isOverConstrained_eq_false_iff assembled isZero).mp consistent
  have otherSolvable := (alike.solvable_iff coherent otherCoherent).mp solvable
  rcases writes.solved idle coherent assembled isZero solvable with
    ⟨moved, isResult, solved, keeps⟩
  rcases otherWrites.solved otherIdle otherCoherent otherAssembled otherIsZero
    otherSolvable with
    ⟨otherMoved, isOther, otherSolved, otherKeeps⟩
  refine ⟨⟨moved, isResult⟩, ⟨otherMoved, isOther⟩, writes.keys_eq,
    otherWrites.keys_eq.trans alike.keys, ?_⟩
  apply coherent.eq_of_agree assembled isZero
    ((alike.solvedBy_iff coherent otherCoherent 1 _).mpr otherSolved) solved
  intro id free
  have otherFree := free
  rw [alike.freeIds_eq coherent otherCoherent assembled otherAssembled isZero
    otherIsZero]
    at otherFree
  rw [otherKeeps id otherFree, keeps id free,
    alike.values id ((freeIds_sublist_keys _).subset free)]

end Alike

end Solver

end LiveLinear
