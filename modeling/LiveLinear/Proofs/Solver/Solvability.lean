import LiveLinear.Proofs.Elimination.Solvability
import LiveLinear.Proofs.Solver.Accuracy
import LiveLinear.Proofs.Solver.Atomicity
import LiveLinear.Proofs.Solver.Consistency

namespace LiveLinear

/-! # Solvable solvers

With exact arithmetic and tolerance zero, a solve succeeds exactly if the
constraints can be satisfied all at once, and it moves nothing if they are
satisfied already. -/

def Constraint.HoldsAt (constraint : Constraint ℚ) (values : VariableId → ℚ) :
    Prop :=
  (constraint.terms.entries.map fun term => term.2 * values term.1).sum =
    constraint.sum

instance (constraint : Constraint ℚ) (values : VariableId → ℚ) :
    Decidable (constraint.HoldsAt values) :=
  inferInstanceAs (Decidable (_ = _))

theorem Constraint.holdsAt_pinning {id : VariableId} {value : ℚ}
    {values : VariableId → ℚ} :
    (pinning id value).HoldsAt values ↔ values id = value := by
  have terms : (Table.empty.put id (1 : ℚ)).entries = [(id, 1)] := rfl
  simp [HoldsAt, pinning, terms]

namespace Solver

variable {solver after : Solver ℚ}

def Solvable (solver : Solver ℚ) : Prop :=
  ∃ values, ∀ constraint ∈ solver.constraints.values, constraint.HoldsAt values

theorem residual_eq_zero_iff {constraint : Constraint ℚ} :
    solver.residual constraint = 0 ↔ constraint.HoldsAt solver.valueOf := by
  rw [residual, sub_eq_zero, evaluate_eq_sum, Constraint.HoldsAt]

theorem Satisfied.solvable (satisfied : solver.Satisfied) : solver.Solvable :=
  ⟨solver.valueOf, fun constraint member =>
    residual_eq_zero_iff.mp (satisfied constraint member)⟩

/-! ## Values as points -/

def pointAt (solver : Solver ℚ) (values : VariableId → ℚ) :
    Vector ℚ solver.unknowns.size :=
  Vector.ofFn fun column => values (solver.columnId column)

@[simp] theorem get_pointAt (solver : Solver ℚ) (values : VariableId → ℚ)
    (column : Fin solver.unknowns.size) :
    (solver.pointAt values).get column = values (solver.columnId column) :=
  Vector.getElem_ofFn column.isLt

theorem ext_get {count : Nat} {left right : Vector ℚ count}
    (same : ∀ column, left.get column = right.get column) : left = right :=
  Vector.ext fun index within => same ⟨index, within⟩

namespace Coherent

theorem pointAt_valueOf (coherent : solver.Coherent) :
    solver.pointAt solver.valueOf = solver.point :=
  ext_get fun column =>
    (solver.get_pointAt _ column).trans (coherent.valueOf_columnId column)

theorem exists_pointAt (coherent : solver.Coherent)
    (point : Vector ℚ solver.unknowns.size) :
    ∃ values, solver.pointAt values = point :=
  ⟨(solver.storePoint point).valueOf, ext_get fun column =>
    (solver.get_pointAt _ column).trans
      (coherent.valueOf_storePoint point column)⟩

theorem residual_pointAt (coherent : solver.Coherent)
    {constraint : Constraint ℚ} (isOver : constraint.Over solver.unknowns.keys)
    (values : VariableId → ℚ) :
    (solver.equation constraint).residual (solver.pointAt values) = 0 ↔
      constraint.HoldsAt values := by
  have live : ∀ id ∈ constraint.terms.keys, ∃ column,
      solver.columnId column = id :=
    fun id member => exists_columnId (isOver.live id member)
  rw [Constraint.HoldsAt,
    sum_terms_eq_sum_columns coherent.columnId_injective values
    isOver.nodup live, Equation.residual, sub_eq_zero]
  simp only [coefficient_equation, get_pointAt]
  rfl

theorem allHold_pointAt (coherent : solver.Coherent) (values : VariableId → ℚ) :
    Equation.AllHold 1 solver.equations (solver.pointAt values) ↔
      ∀ constraint ∈ solver.constraints.values, constraint.HoldsAt values := by
  simp only [Equation.AllHold, equations, List.forall_mem_map,
    Equation.rescale_one]
  apply forall₂_congr
  intro constraint member
  exact coherent.residual_pointAt
    (coherent.constraintsOver constraint member) values

theorem exists_allHold_iff (coherent : solver.Coherent) :
    (∃ point, Equation.AllHold 1 solver.equations point) ↔ solver.Solvable := by
  constructor
  · rintro ⟨point, holds⟩
    rcases coherent.exists_pointAt point with ⟨values, rfl⟩
    exact ⟨values, (coherent.allHold_pointAt values).mp holds⟩
  · rintro ⟨values, holds⟩
    exact ⟨solver.pointAt values, (coherent.allHold_pointAt values).mpr holds⟩

theorem allHold_point_iff (coherent : solver.Coherent) :
    Equation.AllHold 1 solver.equations solver.point ↔ solver.Satisfied := by
  rw [← coherent.pointAt_valueOf, coherent.allHold_pointAt]
  exact forall₂_congr fun _ _ => residual_eq_zero_iff.symm

end Coherent

/-! ## Solving -/

theorem storePoint_point {α : Type} [Scalar α] (solver : Solver α) :
    solver.storePoint solver.point = solver := by
  have unknowns :
      (solver.storePoint solver.point).unknowns = solver.unknowns := by
    have entries : (solver.storePoint solver.point).unknowns.entries =
        solver.unknowns.entries := by
      apply List.ext_getElem
      · simp [storePoint, Table.size]
      · intro index _ _
        simp only [storePoint, point, Table.entry, List.getElem_ofFn,
          Fin.getElem_fin, Vector.getElem_ofFn]
        rfl
    exact congrArg Table.mk entries
  exact congrArg (fun unknowns => { solver with unknowns }) unknowns

theorem exists_assemble {solver : Solver ℚ}
    (isZero : solver.settings.tolerance = some 0) :
    ∃ tableau, solver.assemble = .ok tableau ∧ tableau.tolerance = 0 := by
  refine ⟨⟨solver.equations, 0, false⟩, ?_, rfl⟩
  rw [assemble, isZero]
  exact Tableau.make_exact _

namespace Writes

variable {result : Except (Failure ℚ) (List VariableId)}

/-- A solve of constraints that can be satisfied satisfies them. -/
theorem of_solvable (writes : solver.Writes result after)
    (idle : solver.dispatching = false) (coherent : solver.Coherent)
    (exactly : solver.settings.Exact) (solvable : solver.Solvable) :
    ∃ moved target, result = .ok moved ∧
      after = (solver.storePoint target).unpended ∧
      (solver.storePoint target).Satisfied ∧
      (solver.Satisfied → target = solver.point) := by
  rcases exists_assemble exactly.tolerance with ⟨tableau, assembled, isZero⟩
  have equations := (assemble_eq_ok assembled).1
  have notOver : ¬tableau.reduce.isOverConstrained = true := by
    rw [tableau.isOverConstrained_reduce_iff isZero, not_not, equations]
    exact coherent.exists_allHold_iff.mpr solvable
  cases writes with
  | deferred busy =>
      rw [idle] at busy
      cases busy
  | unassembled _ failed =>
      rw [assembled] at failed
      cases failed
  | refused _ same contradiction _ =>
      rw [assembled] at same
      cases same
      exact absurd contradiction notOver
  | written _ same accepted =>
      rw [assembled] at same
      cases same
      refine ⟨_, _, rfl, rfl,
        satisfied_of_written coherent exactly assembled accepted, ?_⟩
      intro satisfied
      apply tableau.solve_reduce_eq_self isZero
      rw [equations]
      exact coherent.allHold_point_iff.mpr satisfied

/-- A solve of constraints that cannot be satisfied is refused. -/
theorem of_unsolvable (writes : solver.Writes result after)
    (idle : solver.dispatching = false) (coherent : solver.Coherent)
    (exactly : solver.settings.Exact) (unsolvable : ¬solver.Solvable) :
    result = .error .overConstrained ∧ after = solver.unpended := by
  rcases exists_assemble exactly.tolerance with ⟨tableau, assembled, isZero⟩
  have equations := (assemble_eq_ok assembled).1
  have isOver : tableau.reduce.isOverConstrained = true := by
    rw [tableau.isOverConstrained_reduce_iff isZero, equations]
    exact fun holds => unsolvable (coherent.exists_allHold_iff.mp holds)
  cases writes with
  | deferred busy =>
      rw [idle] at busy
      cases busy
  | unassembled _ failed =>
      rw [assembled] at failed
      cases failed
  | refused _ _ _ _ => exact ⟨rfl, rfl⟩
  | written _ same accepted =>
      rw [assembled] at same
      cases same
      have tolerated := accepted isOver
      rw [exactly.refuses] at tolerated
      cases tolerated

end Writes

end Solver

end LiveLinear
