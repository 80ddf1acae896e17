import LiveLinear.Proofs.Elimination.Residual
import LiveLinear.Proofs.Solver.Coherence

namespace LiveLinear

open scoped BigOperators

/-! # The assembled equations

A constraint adds up its own terms; its equation adds up over all columns. On a
coherent solver both miss their sum by the same amount, at the values the solver
holds and at the values of any point that is written into it. -/

/-- Adding up terms over the columns finds each of them once. -/
theorem sum_terms_eq_sum_columns {count : Nat} {ids : Fin count → VariableId}
    (injective : Function.Injective ids) (value : VariableId → ℚ)
    {terms : Table VariableId ℚ} (nodup : terms.keys.Nodup)
    (live : ∀ id ∈ terms.keys, ∃ column, ids column = id) :
    (terms.entries.map fun term => term.2 * value term.1).sum =
      ∑ column : Fin count,
        (terms.get? (ids column)).getD 0 * value (ids column) := by
  rcases terms with ⟨entries⟩
  induction entries with
  | nil => simp [Table.get?]
  | cons head tail induction =>
      rcases head with ⟨id, coefficient⟩
      rcases List.nodup_cons.mp nodup with ⟨fresh, nodupTail⟩
      rcases live id List.mem_cons_self with ⟨place, rfl⟩
      have rest := induction nodupTail fun other member =>
        live other (List.mem_cons_of_mem _ member)
      have absent : (⟨tail⟩ : Table VariableId ℚ).get? (ids place) = none :=
        Table.get?_eq_none_iff.mpr fresh
      have split : ∀ column : Fin count,
          ((⟨(ids place, coefficient) :: tail⟩ : Table VariableId ℚ).get?
              (ids column)).getD 0 * value (ids column) =
            (if column = place then coefficient * value (ids place) else 0) +
              ((⟨tail⟩ : Table VariableId ℚ).get? (ids column)).getD 0 *
                value (ids column) := by
        intro column
        rw [Table.get?_cons]
        by_cases equal : column = place
        · rw [equal, if_pos rfl, if_pos rfl, absent]
          simp
        · have different : ids place ≠ ids column := fun same =>
            equal (injective same).symm
          rw [if_neg different, if_neg equal, zero_add]
      simp only [split, Finset.sum_add_distrib, Finset.sum_ite_eq',
        Finset.mem_univ, if_true, List.map_cons, List.sum_cons, rest]

namespace Solver

variable {solver : Solver ℚ}

abbrev columnId {α : Type u} (solver : Solver α)
    (column : Fin solver.unknowns.size) :
    VariableId :=
  (solver.unknowns.entry column).1

theorem Coherent.columnId_injective {α : Type u} {solver : Solver α}
    (coherent : solver.Coherent) :
    Function.Injective solver.columnId := by
  intro left right equal
  have within : ∀ column : Fin solver.unknowns.size,
      column.val < solver.unknowns.keys.length := by
    intro column
    rw [Table.length_keys]
    exact column.isLt
  have keys : ∀ column : Fin solver.unknowns.size,
      solver.columnId column = solver.unknowns.keys.get
        ⟨column.val, within column⟩ := by
    intro column
    simp only [Table.keys, List.get_eq_getElem, List.getElem_map]
    rfl
  rw [keys, keys] at equal
  have same := List.nodup_iff_injective_get.mp coherent.unknownsNodup equal
  exact Fin.ext (Fin.mk.inj same)

theorem exists_columnId {α : Type u} {solver : Solver α} {id : VariableId}
    (live : id ∈ solver.unknowns.keys) : ∃ column,
      solver.columnId column = id := by
  rcases List.mem_map.mp live with ⟨entry, member, isId⟩
  rcases List.mem_iff_getElem.mp member with ⟨index, within, isEntry⟩
  exact ⟨⟨index, within⟩, (congrArg Prod.fst isEntry).trans isId⟩

/-- What a tableau that has been assembled is made of. -/
theorem assemble_eq_ok {α : Type} [Scalar α] {solver : Solver α}
    {tableau : Tableau α solver.unknowns.size}
    (assembled : solver.assemble = .ok tableau) :
    tableau.equations = solver.equations ∧
      solver.settings.tolerance = some tableau.tolerance ∧
      ¬tableau.tolerance < 0 := by
  unfold assemble Tableau.make at assembled
  split at assembled
  · split at assembled
    · cases assembled
    · next tolerance given =>
        split at assembled
        · cases assembled
        · next nonnegative =>
            cases assembled
            exact ⟨rfl, given, nonnegative⟩
  · cases assembled

section Assembled

variable {α : Type} [Scalar α] {solver : Solver α}
  {tableau : Tableau α solver.unknowns.size}
  (assembled : solver.assemble = .ok tableau)
include assembled

theorem tolerance_of_assembled {tolerance : α}
    (given : solver.settings.tolerance = some tolerance) :
    tableau.tolerance = tolerance :=
  Option.some.inj ((assemble_eq_ok assembled).2.1.symm.trans given)

theorem equation_mem_of_assembled {constraint : Constraint α}
    (member : constraint ∈ solver.constraints.values) :
    solver.equation constraint ∈ tableau.equations := by
  rw [(assemble_eq_ok assembled).1]
  exact List.mem_map_of_mem member

end Assembled

theorem consistent_of_accepted {α : Type} [Scalar α] {solver : Solver α}
    {count : Nat} {tableau : Tableau α count}
    (refuses : solver.settings.refusesContradiction = true)
    (accepted : tableau.isOverConstrained = true →
      solver.settings.refusesContradiction = false) :
    tableau.isOverConstrained = false := by
  cases contradiction : tableau.isOverConstrained with
  | false => rfl
  | true => exact refuses.symm.trans (accepted contradiction)

theorem evaluate_eq_sum (solver : Solver ℚ) (constraint : Constraint ℚ) :
    solver.evaluate constraint =
      (constraint.terms.entries.map fun term =>
        term.2 * solver.valueOf term.1).sum := by
  rw [evaluate, foldl_add_eq_sum]
  exact zero_add _

theorem coefficient_equation (solver : Solver ℚ) (constraint : Constraint ℚ)
    (column : Fin solver.unknowns.size) :
    (solver.equation constraint).coefficient column =
      (constraint.terms.get? (solver.columnId column)).getD 0 := by
  simp [equation, Equation.coefficient]

section Values

variable {α : Type} [Scalar α] {solver : Solver α}

theorem valueOf_columnId (nodup : solver.unknowns.keys.Nodup)
    (column : Fin solver.unknowns.size) :
    solver.valueOf (solver.columnId column) =
      (solver.unknowns.entry column).2.value := by
  have member : (solver.columnId column, (solver.unknowns.entry column).2) ∈
      solver.unknowns.entries := List.getElem_mem column.isLt
  simp [valueOf, Table.get?_of_mem_entries nodup member]

theorem valueOf_storePoint (nodup : solver.unknowns.keys.Nodup)
    (target : Vector α solver.unknowns.size)
    (column : Fin solver.unknowns.size) :
    (solver.storePoint target).valueOf (solver.columnId column) =
      target.get column := by
  have member : (solver.columnId column,
      { (solver.unknowns.entry column).2 with value := target.get column }) ∈
        (solver.storePoint target).unknowns.entries :=
    (List.mem_ofFn' _ _).mpr ⟨column, rfl⟩
  rw [← Coherent.keys_storePoint solver target] at nodup
  simp [valueOf, Table.get?_of_mem_entries nodup member]

end Values

theorem Coherent.valueOf_storePoint (coherent : solver.Coherent)
    (target : Vector ℚ solver.unknowns.size)
    (column : Fin solver.unknowns.size) :
    (solver.storePoint target).valueOf (solver.columnId column) =
      target.get column :=
  Solver.valueOf_storePoint coherent.unknownsNodup target column

theorem Coherent.residual_storePoint (coherent : solver.Coherent)
    (target : Vector ℚ solver.unknowns.size) {constraint : Constraint ℚ}
    (isOver : constraint.Over solver.unknowns.keys) :
    (solver.storePoint target).residual constraint =
      (solver.equation constraint).residual target := by
  have live : ∀ id ∈ constraint.terms.keys, ∃ column,
      solver.columnId column = id :=
    fun id member => exists_columnId (isOver.live id member)
  rw [residual, evaluate_eq_sum,
    sum_terms_eq_sum_columns coherent.columnId_injective _ isOver.nodup live]
  simp only [coherent.valueOf_storePoint, Equation.residual,
    coefficient_equation]
  rfl

end Solver

end LiveLinear
