import LiveLinear.Proofs.Elimination.EchelonForm
import LiveLinear.Proofs.Solver.Accuracy
import LiveLinear.Proofs.Solver.Moving

namespace LiveLinear

/-! # Diagnoses of a solver

Diagnoses read the reduced constraints, each in its own way, and change nothing.
They agree with one another and with a solve as soon as no column leads two
rows, in whatever arithmetic the rows have been reduced. -/

variable {α : Type} [Scalar α]

namespace Solver

variable {solver : Solver α}

section Free

variable {tableau : Tableau α solver.unknowns.size}

theorem freeIds_eq_map (tableau : Tableau α solver.unknowns.size) :
    solver.freeIds tableau =
      ((List.finRange solver.unknowns.size).filter fun column =>
        !tableau.pivotColumns.contains column).map solver.columnId := by
  rw [freeIds, ← List.filterMap_eq_map, List.filterMap_filter]
  apply List.filterMap_congr
  intro column _
  cases tableau.pivotColumns.contains column <;> rfl

theorem freeIds_sublist_keys (tableau : Tableau α solver.unknowns.size) :
    (solver.freeIds tableau).Sublist solver.unknowns.keys := by
  rw [freeIds_eq_map, keys_eq_map_entry]
  exact List.filter_sublist.map _

theorem length_freeIds (nodup : tableau.pivotColumns.Nodup) :
    (solver.freeIds tableau).length + tableau.rank = solver.unknowns.size := by
  have pivots : ((List.finRange solver.unknowns.size).filter
      fun column => tableau.pivotColumns.contains column).Perm
    tableau.pivotColumns := by
    apply (List.perm_ext_iff_of_nodup ((List.nodup_finRange _).filter _)
      nodup).mpr
    simp
  have split : (List.finRange solver.unknowns.size).length = _ :=
    List.length_eq_length_filter_add fun column =>
      tableau.pivotColumns.contains column
  rw [pivots.length_eq, List.length_finRange] at split
  rw [freeIds_eq_map, List.length_map, tableau.rank_eq_length]
  omega

theorem length_freeIds_reduce [OrderedScalar α] (solver : Solver α)
    {tableau : Tableau α solver.unknowns.size}
    (nonnegative : 0 ≤ tableau.tolerance) (small : tableau.tolerance < 1) :
    (solver.freeIds tableau.reduce).length + tableau.reduce.rank =
      solver.unknowns.size :=
  length_freeIds (tableau.nodup_pivotColumns_reduce nonnegative small)

theorem isUnderConstrained_iff_freeIds (nodup : tableau.pivotColumns.Nodup) :
    tableau.isUnderConstrained = true ↔ solver.freeIds tableau ≠ [] := by
  have counted := length_freeIds nodup
  rw [Tableau.isUnderConstrained, decide_eq_true_iff, ← List.length_pos_iff]
  omega

end Free

theorem exists_assemble_of_finite [OrderedScalar α] {tolerance : α}
    (isTolerance : solver.settings.tolerance = some tolerance)
    (nonnegative : 0 ≤ tolerance)
    (finite : ∀ equation ∈ solver.equations,
      equation.toRow.all Scalar.isFinite = true) :
    ∃ tableau, solver.assemble = .ok tableau ∧ tableau.tolerance = tolerance ∧
      tableau.reduced = false := by
  have notNegative : ¬tolerance < 0 := Scalar.not_lt_of_le nonnegative
  have allFinite := List.all_eq_true.mpr finite
  refine ⟨⟨solver.equations, tolerance, false⟩, ?_, rfl, rfl⟩
  simp only [assemble, Tableau.make, isTolerance, allFinite, if_true,
    if_neg notNegative]

/-- Outside of dispatch, a solve is refused exactly if contradictions are and
the diagnosis is that there is one. Otherwise it keeps the values of the free
variables. -/
theorem Writes.diagnosed {result : Except (Failure α) (List VariableId)}
    {after : Solver α} (writes : solver.Writes result after)
    (idle : solver.dispatching = false) (nodup : solver.unknowns.keys.Nodup)
    {tableau : Tableau α solver.unknowns.size}
    (assembled : solver.assemble = .ok tableau) :
    (result = .error .overConstrained ↔
        solver.settings.refusesContradiction = true ∧
        tableau.reduce.isOverConstrained = true) ∧
      (result ≠ .error .overConstrained → (∃ moved, result = .ok moved) ∧
        ∀ id ∈ solver.freeIds tableau.reduce,
          after.valueOf id = solver.valueOf id) := by
  cases writes with
  | deferred busy =>
      rw [idle] at busy
      cases busy
  | unassembled _ failed =>
      rw [assembled] at failed
      cases failed
  | refused _ same contradiction refuses =>
      rw [assembled] at same
      cases same
      exact ⟨iff_of_true rfl ⟨refuses, contradiction⟩, fun other =>
        absurd rfl other⟩
  | written _ same accepted =>
      rw [assembled] at same
      cases same
      refine ⟨iff_of_false nofun ?_, fun _ => ⟨⟨_, rfl⟩, ?_⟩⟩
      · rintro ⟨refuses, contradiction⟩
        rw [accepted contradiction] at refuses
        cases refuses
      · intro id free
        exact valueOf_storePoint_of_free nodup free

end Solver

/-! ## Diagnoses change nothing -/

def Draft.SameSolver (before after : Draft β) : Prop :=
  after.solver = before.solver

namespace Edit

theorem noting : Lasting (Draft.SameSolver (β := β)) where
  refl _ := rfl
  trans _ _ _ left right := right.trans left

theorem reduction_noting (solver : Solver α) :
    Keeps Draft.SameSolver (reduction solver) :=
  fun _ _ _ yields => (reduction_cases yields).1

theorem diagnosis_noting {γ : Type} (diagnose : ∀ solver : Solver α,
    Tableau α solver.unknowns.size → γ) : Keeps Draft.SameSolver (do
      let solver ← current
      return diagnose solver (← reduction solver)) :=
  noting.bind noting.current fun solver =>
    noting.bind (reduction_noting solver) fun _ => noting.pure _

theorem isOverConstrained_noting :
    Keeps Draft.SameSolver (isOverConstrained (α := α)) :=
  diagnosis_noting fun _ tableau => tableau.isOverConstrained

theorem isUnderConstrained_noting :
    Keeps Draft.SameSolver (isUnderConstrained (α := α)) :=
  diagnosis_noting fun _ tableau => tableau.isUnderConstrained

theorem freeVariables_noting :
    Keeps Draft.SameSolver (freeVariables (α := α)) :=
  diagnosis_noting fun solver tableau => solver.freeIds tableau

end Edit

end LiveLinear
