import LiveLinear.Proofs.Solver.Solvability

namespace LiveLinear

/-! # Constraints written out as rows

Constraints store coefficients by variable, rows by column. Here rows are
written and constraints are added up term by term, and a term whose variable is
not live would put an end to that. A coherent solver has no such term: its rows
can be written, they are its equations, and they miss their sums by as much as
the constraints do. -/

variable {α : Type} {β : Type u} {γ : Type v}

theorem mapM_eq_some_map {step : β → Option γ} {total : β → γ}
    {members : List β}
    (succeeds : ∀ member ∈ members, step member = some (total member)) :
    members.mapM step = some (members.map total) := by
  induction members with
  | nil => rfl
  | cons head tail induction =>
      rcases List.forall_mem_cons.mp succeeds with ⟨first, later⟩
      rw [List.mapM_cons, first, induction later]
      rfl

theorem foldlM_eq_some_foldl {step : γ → β → Option γ} {total : γ → β → γ}
    {members : List β}
    (succeeds : ∀ member ∈ members, ∀ state,
      step state member = some (total state member))
    (start : γ) :
    members.foldlM step start = some (members.foldl total start) := by
  induction members generalizing start with
  | nil => rfl
  | cons head tail induction =>
      rcases List.forall_mem_cons.mp succeeds with ⟨first, later⟩
      rw [List.foldlM_cons, first start]
      exact induction later (total start head)

namespace Solver

section Writing

variable (solver : Solver α)

def column? (id : VariableId) : Option (Fin solver.unknowns.size) :=
  (List.finRange solver.unknowns.size).find? fun column =>
    decide (solver.columnId column = id)

/-- Write terms into a row one after another, each in the column of its
variable. -/
def writeTerms? (row : Vector α solver.unknowns.size)
    (terms : List (VariableId × α)) :
    Option (Vector α solver.unknowns.size) :=
  terms.foldlM
    (fun row term =>
      (solver.column? term.1).map fun column =>
        row.set column.val term.2 column.isLt)
    row

variable [Scalar α]

def equation? (constraint : Constraint α) :
    Option (Equation α solver.unknowns.size) :=
  (solver.writeTerms? (Vector.ofFn fun _ => 0) constraint.terms.entries).map
      fun coefficients =>
    ⟨coefficients, constraint.sum⟩

def equations? : Option (List (Equation α solver.unknowns.size)) :=
  solver.constraints.values.mapM solver.equation?

def evaluate? (constraint : Constraint α) : Option α :=
  constraint.terms.entries.foldlM
    (fun total term =>
      (solver.unknowns.get? term.1).map fun contents =>
        total + term.2 * contents.value)
    0

def residual? (constraint : Constraint α) : Option α :=
  (solver.evaluate? constraint).map fun total => total - constraint.sum

def residuals? : Option (List α) :=
  solver.constraints.values.mapM solver.residual?

end Writing

/-! ## Nothing is missing -/

section Adding

variable [Scalar α] {solver : Solver α}

theorem evaluate?_eq {constraint : Constraint α}
    (isOver : constraint.Over solver.unknowns.keys) :
    solver.evaluate? constraint = some (solver.evaluate constraint) := by
  apply foldlM_eq_some_foldl
  intro term member total
  have live := isOver.live term.1 (List.mem_map_of_mem member)
  rcases Table.exists_get?_of_mem_keys live with ⟨contents, found⟩
  simp [valueOf, found]

theorem residual?_eq {constraint : Constraint α}
    (isOver : constraint.Over solver.unknowns.keys) :
    solver.residual? constraint = some (solver.residual constraint) := by
  rw [residual?, evaluate?_eq isOver, Option.map_some, residual]

end Adding

namespace Coherent

variable {solver : Solver α} (coherent : solver.Coherent)

include coherent

theorem column?_columnId (column : Fin solver.unknowns.size) :
    solver.column? (solver.columnId column) = some column := by
  unfold column?
  cases found : (List.finRange solver.unknowns.size).find? fun other =>
      decide (solver.columnId other = solver.columnId column) with
  | none =>
      have absent :=
        List.find?_eq_none.mp found column (List.mem_finRange column)
      exact absurd (decide_eq_true rfl) absent
  | some other =>
      have same := List.find?_some found
      rw [coherent.columnId_injective (of_decide_eq_true same)]

/-- Each column of the row holds the coefficient of its variable afterwards, or
what it held before if there is no term. Later terms leave it alone, since no
variable comes twice. -/
theorem writeTerms?_eq {terms : Table VariableId α} (nodup : terms.keys.Nodup)
    (live : ∀ id ∈ terms.keys, id ∈ solver.unknowns.keys)
    (row : Vector α solver.unknowns.size) :
    solver.writeTerms? row terms.entries =
      some (Vector.ofFn fun column =>
        (terms.get? (solver.columnId column)).getD (row.get column)) := by
  rcases terms with ⟨entries⟩
  -- The row is left open, since later terms are written into what the first one
  -- has left.
  induction entries generalizing row with
  | nil =>
      apply congrArg some
      apply Vector.ext
      intro index within
      rw [Vector.getElem_ofFn]
      rfl
  | cons head tail induction =>
      rcases head with ⟨id, coefficient⟩
      rcases List.nodup_cons.mp nodup with ⟨fresh, nodupTail⟩
      have isLive : id ∈ solver.unknowns.keys := live id List.mem_cons_self
      rcases exists_columnId isLive with ⟨place, rfl⟩
      have written :=
        induction (row.set place.val coefficient place.isLt) nodupTail
          fun other member => live other (List.mem_cons_of_mem _ member)
      have absent :
          (⟨tail⟩ : Table VariableId α).get? (solver.columnId place) = none :=
        Table.get?_eq_none_iff.mpr fresh
      rw [writeTerms?, List.foldlM_cons, coherent.column?_columnId]
      refine written.trans
        (congrArg (fun coefficients => some (Vector.ofFn coefficients)) ?_)
      funext column
      rw [Table.get?_cons, Equation.get_set]
      by_cases same : place = column
      · subst same
        rw [absent, if_pos rfl, if_pos rfl]
        rfl
      · have different : solver.columnId place ≠ solver.columnId column :=
            fun equal =>
          same (coherent.columnId_injective equal)
        rw [if_neg same, if_neg different]

variable [Scalar α]

theorem equation?_eq {constraint : Constraint α}
    (isOver : constraint.Over solver.unknowns.keys) :
    solver.equation? constraint = some (solver.equation constraint) := by
  have zeros : ∀ column : Fin solver.unknowns.size,
      (Vector.ofFn fun _ => (0 : α)).get column = 0 := fun column =>
    Vector.getElem_ofFn column.isLt
  rw [equation?, coherent.writeTerms?_eq isOver.nodup isOver.live,
    Option.map_some, equation]
  simp only [zeros]

theorem equations?_eq : solver.equations? = some solver.equations :=
  mapM_eq_some_map fun constraint member =>
    coherent.equation?_eq (coherent.constraintsOver constraint member)

theorem residuals?_eq : solver.residuals? = some solver.residuals :=
  mapM_eq_some_map fun constraint member =>
    residual?_eq (coherent.constraintsOver constraint member)

end Coherent

end Solver

/-! ## What the rows say -/

/-- By how much the equations are missed at a point, in their order. -/
def Tableau.residuals {n : Nat} (tableau : Tableau ℚ n) (point : Vector ℚ n) :
    List ℚ :=
  tableau.equations.map fun equation => equation.residual point

namespace Solver

open scoped Matrix

variable {solver : Solver ℚ}

/-- The solver with another tolerance. -/
def atTolerance (solver : Solver α) (tolerance : α) : Solver α :=
  solver.setSettings fun settings =>
    { settings with tolerance := some tolerance }

/-- The tableau says of the variables what the constraints say. -/
structure Transcribed (solver : Solver ℚ)
    (tableau : Tableau ℚ solver.unknowns.size) : Prop where
  /-- Its rows are those of the constraints, in order. -/
  rows : solver.equations? = some tableau.equations
  /-- Whatever values the variables have, its rows are missed by as much as the
  constraints. -/
  missed (point : Vector ℚ solver.unknowns.size) :
    (solver.storePoint point).residuals? = some (tableau.residuals point)
  /-- The solutions of its system are the values at which all constraints
  hold. -/
  solved (values : VariableId → ℚ) :
    tableau.matrix *ᵥ (fun column => values (solver.columnId column)) =
      tableau.sums ↔ ∀ constraint ∈ solver.constraints.values,
      constraint.HoldsAt values

theorem Coherent.residuals_storePoint (coherent : solver.Coherent)
    (point : Vector ℚ solver.unknowns.size) :
    (solver.storePoint point).residuals =
      solver.equations.map fun equation => equation.residual point := by
  rw [residuals, equations, List.map_map]
  apply List.map_congr_left
  intro constraint member
  exact coherent.residual_storePoint point
    (coherent.constraintsOver constraint member)

theorem Coherent.residual_point (coherent : solver.Coherent)
    {constraint : Constraint ℚ}
    (isOver : constraint.Over solver.unknowns.keys) :
    (solver.equation constraint).residual solver.point =
      solver.residual constraint := by
  rw [← coherent.residual_storePoint solver.point isOver, storePoint_point]

theorem Coherent.transcribed (coherent : solver.Coherent)
    {tableau : Tableau ℚ solver.unknowns.size}
    (equations : tableau.equations = solver.equations) :
    solver.Transcribed tableau := by
  refine ⟨?_, fun point => ?_, fun values => ?_⟩
  · rw [equations]
    exact coherent.equations?_eq
  · rw [(coherent.storePoint point).residuals?_eq,
      coherent.residuals_storePoint, Tableau.residuals, equations]
  · have point : (fun column => values (solver.columnId column)) =
        (solver.pointAt values).get := by
      funext column
      exact (solver.get_pointAt values column).symm
    rw [← coherent.allHold_pointAt, ← equations, tableau.allHold_iff_mulVec,
      one_smul, point]

end Solver

end LiveLinear
