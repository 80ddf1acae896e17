import LiveLinear.Proofs.Elimination.Residual

namespace LiveLinear

/-! # The shape of the reduced rows

The outline of the reduced rows told in absolute values: entries before a lead
are at most the tolerance. Resolving such rows from the last to the first makes
each hold from its lead on, and leaves the other unknowns alone. -/

namespace Equation

variable {n : Nat}

structure LeadsAt (tolerance : ℚ) (lead : Fin n) (equation : Equation ℚ n) :
    Prop where
  one : equation.coefficient lead = 1
  negligible : ∀ column < lead, |equation.coefficient column| ≤ tolerance

theorem leadsAt_iff {tolerance : ℚ} {lead : Fin n} {equation : Equation ℚ n} :
    LeadsAt tolerance lead equation ↔ Heads tolerance lead equation := by
  constructor
  · rintro ⟨one, negligible⟩
    exact ⟨one, fun column before =>
      Scalar.negligible_iff.mpr (negligible column before)⟩
  · rintro ⟨one, negligible⟩
    exact ⟨one, fun column before =>
      Scalar.negligible_iff.mp (negligible column before)⟩

theorem isVoid_iff {tolerance : ℚ} {equation : Equation ℚ n} :
    equation.isVoid tolerance = true ↔
      ∀ column, |equation.coefficient column| ≤ tolerance := by
  simp only [isVoid_iff_negligible, Scalar.negligible_iff]

namespace LeadsAt

variable {tolerance : ℚ} {lead : Fin n} {equation : Equation ℚ n}

theorem lead?_eq (leads : LeadsAt tolerance lead equation)
    (small : tolerance < 1) :
    equation.lead? tolerance = some lead :=
  (leadsAt_iff.mp leads).lead?_eq small

end LeadsAt

/-! ## Resolving rows with leads -/

abbrev Led (tolerance : ℚ) (pivots : List (Fin n))
    (rows : List (Equation ℚ n)) : Prop :=
  List.Forall₂ (LeadsAt tolerance) pivots rows

theorem led_iff {tolerance : ℚ} {pivots : List (Fin n)}
    {rows : List (Equation ℚ n)} :
    Led tolerance pivots rows ↔ List.Forall₂ (Heads tolerance) pivots rows := by
  have same : LeadsAt tolerance (n := n) = Heads tolerance := by
    funext lead equation
    exact propext leadsAt_iff
  rw [Led, same]

theorem backSubstitute_cons {tolerance : ℚ} {lead : Fin n} {row : Equation ℚ n}
    (atLead : LeadsAt tolerance lead row) (small : tolerance < 1)
    (rows : List (Equation ℚ n)) (start : Vector ℚ n) :
    backSubstitute tolerance (row :: rows) start =
      (backSubstitute tolerance rows start).set lead.val
        (row.resolve lead (backSubstitute tolerance rows start)) lead.isLt :=
  backSubstitute_cons_of_lead (atLead.lead?_eq small) rows start

/-- Every row holds from its lead on once all are resolved. -/
theorem residualFrom_backSubstitute {tolerance : ℚ} {pivots : List (Fin n)}
    {rows : List (Equation ℚ n)} (small : tolerance < 1)
    (led : Led tolerance pivots rows) (ordered : pivots.Pairwise (· < ·))
    (start : Vector ℚ n) :
    List.Forall₂
      (fun lead row =>
        residualFrom row lead.val (backSubstitute tolerance rows start) = 0)
      pivots rows := by
  induction led with
  | nil => exact .nil
  | @cons lead row pivots rows atLead led induction =>
      rcases List.pairwise_cons.mp ordered with ⟨leftmost, orderedLater⟩
      rw [backSubstitute_cons atLead small]
      constructor
      · apply residualFrom_resolve
        rw [atLead.one]
        exact one_ne_zero
      · have held := induction orderedLater
        apply (List.forall₂_iff_get.mpr ?_)
        rcases List.forall₂_iff_get.mp held with ⟨sameLength, holds⟩
        refine ⟨sameLength, ?_⟩
        intro index within withinRows
        have before : lead < pivots.get ⟨index, within⟩ :=
          leftmost _ (List.get_mem _ _)
        rw [residualFrom_set_of_lt _ before]
        exact holds index within withinRows

end Equation

namespace Echelon

variable {n : Nat}

def Passed (tolerance : ℚ) (count : Nat) (rows : List (Equation ℚ n)) : Prop :=
  ∀ equation ∈ rows, ∀ column : Fin n, column.val < count →
    |equation.coefficient column| ≤ tolerance

theorem passed_iff {tolerance : ℚ} {count : Nat} {rows : List (Equation ℚ n)} :
    Passed tolerance count rows ↔ Blank tolerance count rows := by
  simp only [Passed, Blank, Scalar.negligible_iff]

namespace Passed

variable {tolerance : ℚ} {column : Fin n}

theorem zero (tolerance : ℚ) (rows : List (Equation ℚ n)) :
    Passed tolerance 0 rows :=
  passed_iff.mpr (Blank.zero tolerance rows)

theorem skip {state : Echelon ℚ n}
    (passed : Passed tolerance column.val state.active)
    (unpivoted : Unpivoted tolerance state column) :
    Passed tolerance (column.val + 1) state.active :=
  passed_iff.mpr ((passed_iff.mp passed).skip unpivoted)

section Chosen

variable {first pivot : Equation ℚ n} {rest others : List (Equation ℚ n)}

theorem of_chosen {count : Nat}
    (passed : Passed tolerance count (first :: rest))
    (chosen : choosePivot column first rest = (pivot, others)) :
    Passed tolerance count (pivot :: others) :=
  passed_iff.mpr ((passed_iff.mp passed).of_chosen chosen)

theorem eliminate (nonnegative : 0 ≤ tolerance)
    (passed : Passed tolerance column.val (pivot :: others)) :
    Passed tolerance (column.val + 1)
      (others.map (Equation.eliminate pivot column)) :=
  passed_iff.mpr ((passed_iff.mp passed).eliminate nonnegative)

end Chosen

end Passed

/-! ## All columns -/

structure Shaped (tolerance : ℚ) (pivots : List (Fin n)) (state : Echelon ℚ n) :
    Prop where
  ordered : pivots.Pairwise (· < ·)
  led : Equation.Led tolerance pivots state.placed
  isVoid : ∀ equation ∈ state.active, equation.isVoid tolerance = true

theorem exists_course_ofEquations {tolerance : ℚ} (nonnegative : 0 ≤ tolerance)
    (equations : List (Equation ℚ n)) :
    ∃ pivots,
      Course tolerance (List.finRange n) ⟨[], equations⟩ pivots
          (ofEquations tolerance equations) ∧
        Shaped tolerance pivots (ofEquations tolerance equations) := by
  rcases exists_outline nonnegative equations with
    ⟨pivots, course, ordered, heads, isVoid⟩
  exact ⟨pivots, course, ordered, Equation.led_iff.mpr heads, isVoid⟩

namespace Shaped

variable {tolerance : ℚ} {pivots : List (Fin n)} {state : Echelon ℚ n}

theorem leads_eq (shaped : Shaped tolerance pivots state)
    (small : tolerance < 1) :
    Equation.leads tolerance state.toList = pivots := by
  rw [toList, Equation.leads_append_of_isVoid _ shaped.isVoid]
  exact Equation.leads_of_heads small (Equation.led_iff.mp shaped.led)

theorem backSubstitute_eq (shaped : Shaped tolerance pivots state)
    (start : Vector ℚ n) :
    Equation.backSubstitute tolerance state.toList start =
      Equation.backSubstitute tolerance state.placed start :=
  Equation.backSubstitute_append_of_isVoid _ shaped.isVoid start

end Shaped

end Echelon

end LiveLinear
