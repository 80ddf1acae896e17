import LiveLinear.Proofs.Elimination.EchelonForm
import LiveLinear.Proofs.Elimination.Residual

namespace LiveLinear

/-! # Reducing again

In exact arithmetic, rows in echelon form are reduced to themselves. Column by
column, no row from the next stair on has more than a negligible entry until the
column of its pivot is reached; there its one is the largest entry, and to
divide by it and to subtract nothing from the rows below changes nothing. -/

theorem largestFrom_of_not_surpasses {α : Type u} [Scalar α] {best : α}
    {values : List α}
    (kept : ∀ value ∈ values, Scalar.surpasses value best = false)
    (place next : Nat) :
    largestFrom best place next values = place := by
  induction values generalizing next with
  | nil => rfl
  | cons value values induction =>
      rcases List.forall_mem_cons.mp kept with ⟨keptFirst, keptLater⟩
      rw [largestFrom, keptFirst]
      exact induction keptLater (next + 1)

namespace Echelon

section Course

variable {α : Type u} {n : Nat} [Scalar α] {tolerance : α}
  {columns pivots others : List (Fin n)} {state final last : Echelon α n}

theorem unpivoted_of_negligible {column : Fin n}
    (negligible : ∀ equation ∈ state.active,
      Scalar.negligible tolerance (equation.coefficient column) = true) :
    Unpivoted tolerance state column := by
  intro first rest isActive
  apply negligible
  rw [isActive]
  exact (choosePivot_perm column first rest).mem_iff.mp List.mem_cons_self

theorem Course.length_placed
    (course : Course tolerance columns state pivots final) :
    final.placed.length = state.placed.length + pivots.length := by
  induction course with
  | done => rfl
  | skip _ _ induction => exact induction
  | place _ _ _ induction =>
      simp only [List.length_append, List.length_cons, List.length_nil]
        at induction ⊢
      omega

/-- There is only one course. -/
theorem Course.unique (course : Course tolerance columns state pivots final)
    (other : Course tolerance columns state others last) : others = pivots ∧
    last = final := by
  induction course generalizing others last with
  | done => cases other with | done => exact ⟨rfl, rfl⟩
  | skip unpivoted _ induction =>
      cases other with
      | skip _ later => exact induction later
      | place chosen significant =>
          have negligible := unpivoted _ _ rfl
          rw [chosen, significant] at negligible
          cases negligible
  | place chosen significant _ induction =>
      cases other with
      | skip unpivoted =>
          have negligible := unpivoted _ _ rfl
          rw [chosen, significant] at negligible
          cases negligible
      | place chosenToo _ later =>
          cases chosen.symm.trans chosenToo
          rcases induction later with ⟨rfl, rfl⟩
          exact ⟨rfl, rfl⟩

theorem Course.eq_foldl (course : Course tolerance columns state pivots final) :
    final = columns.foldl (step tolerance) state := by
  rcases exists_course tolerance columns state with ⟨others, other⟩
  exact (course.unique other).2.symm

/-- Eliminating all columns from the equations gives these columns a pivot. -/
def Finds (tolerance : α) (equations : List (Equation α n))
    (pivots : List (Fin n)) : Prop :=
  Course tolerance (List.finRange n) ⟨[], equations⟩ pivots
    (ofEquations tolerance equations)

theorem Finds.iff_eq {equations : List (Equation α n)}
    (finds : Finds tolerance equations pivots) (others : List (Fin n)) :
    Finds tolerance equations others ↔ others = pivots := by
  constructor
  · intro other
    exact (Course.unique finds other).1
  · rintro rfl
    exact finds

end Course

end Echelon

/-! ## Exact arithmetic -/

namespace Equation

variable {n : Nat} {equation : Equation ℚ n} {column : Fin n}

theorem ext_coefficient {other : Equation ℚ n}
    (coefficients : ∀ index,
      other.coefficient index = equation.coefficient index)
    (sum : other.sum = equation.sum) : other = equation := by
  rcases equation with ⟨values, total⟩
  rcases other with ⟨otherValues, otherTotal⟩
  have same : otherValues = values := by
    apply Vector.ext
    intro index within
    exact coefficients ⟨index, within⟩
  cases same
  cases sum
  rfl

theorem eliminate_eq_self {pivot : Equation ℚ n}
    (nonzero : pivot.coefficient column ≠ 0)
    (cleared : equation.coefficient column = 0) :
    pivot.eliminate column equation = equation := by
  apply ext_coefficient
  · intro index
    rcases lt_or_ge index column with before | reached
    · exact coefficient_eliminate_of_lt pivot equation before
    · rw [coefficient_eliminate_of_le pivot equation nonzero reached, cleared,
        zero_div, zero_mul, sub_zero]
  · simp [eliminate, cleared]

theorem scale_eq_self (one : equation.coefficient column = 1) :
    equation.scale column = equation := by
  apply ext_coefficient
  · intro index
    rcases lt_or_ge index column with before | reached
    · exact coefficient_scale_of_lt equation before
    · rw [coefficient_scale_of_le equation (one.trans_ne one_ne_zero) reached,
        one, div_one]
  · simp [scale, one]

end Equation

namespace Echelon

open Equation (Stairs)

variable {n : Nat} {tolerance : ℚ}

theorem choosePivot_of_cleared {column : Fin n} (first : Equation ℚ n)
    {rest : List (Equation ℚ n)}
    (cleared : ∀ equation ∈ rest, equation.coefficient column = 0) :
    choosePivot column first rest = (first, rest) := by
  have atFirst : largestIndex |first.coefficient column|
      (rest.map fun equation => |equation.coefficient column|) = 0 := by
    apply largestFrom_of_not_surpasses
    intro value member
    rcases List.mem_map.mp member with ⟨equation, isLower, rfl⟩
    simp [Scalar.surpasses, cleared equation isLower]
  simp only [choosePivot, Scalar.magnitude_rat, atFirst]
  rfl

/-- Rows in echelon form are placed as they are, each at its pivot. -/
theorem course_of_stairs {pivots : List (Fin n)} {rows : List (Equation ℚ n)}
    (stairs : Stairs tolerance pivots rows) (small : tolerance < 1)
    {columns : List (Fin n)} {count : Nat}
    (remaining : columns = (List.finRange n).drop count)
    (reached : ∀ pivot ∈ pivots, count ≤ pivot.val)
    (placed : List (Equation ℚ n)) :
    Course tolerance columns ⟨placed, rows⟩ pivots
      ⟨placed ++ rows.take pivots.length, rows.drop pivots.length⟩ := by
  induction columns generalizing count pivots rows placed with
  | nil =>
      have past := le_of_drop_eq_nil remaining
      have none : pivots = [] := by
        apply List.eq_nil_iff_forall_not_mem.mpr
        intro pivot member
        have within := reached pivot member
        omega
      subst none
      have stays : Course tolerance [] ⟨placed, rows⟩ [] ⟨placed, rows⟩ :=
        .done _
      simpa using stays
  | cons column columns induction =>
      rcases columns_of_drop remaining with ⟨rfl, remainingLater⟩
      by_cases isPivot : column ∈ pivots
      · cases stairs with
        | ground => cases isPivot
        | @stair pivot row pivots rows heads cleared leftmost lower =>
            -- the pivots after the first one are further to the right
            have isFirst : column = pivot := by
              have atMost : column ≤ pivot := reached pivot List.mem_cons_self
              rcases List.mem_cons.mp isPivot with isFirst | isLater
              · exact isFirst
              · exact absurd (leftmost column isLater) atMost.not_gt
            subst isFirst
            have nonzero : row.coefficient column ≠ 0 :=
              heads.one.trans_ne one_ne_zero
            have significant :
                Scalar.negligible tolerance (row.coefficient column) =
                  false := by
              rw [heads.one]
              exact Scalar.not_negligible_one small
            have unchanged :
                rows.map (Equation.eliminate row column) = rows := by
              rw [List.map_congr_left fun equation member =>
                Equation.eliminate_eq_self nonzero (cleared equation member)]
              exact List.map_id' rows
            have later :=
              induction lower remainingLater leftmost (placed ++ [row])
            rw [List.append_assoc, List.singleton_append] at later
            apply Course.place (choosePivot_of_cleared row cleared) significant
            rw [unchanged, Equation.scale_eq_self heads.one]
            exact later
      · have before : ∀ pivot ∈ pivots, column < pivot := by
          intro pivot member
          have different : column ≠ pivot := fun same => isPivot (same ▸ member)
          exact lt_of_le_of_ne (reached pivot member) different
        apply Course.skip
        · exact unpivoted_of_negligible fun equation member =>
            stairs.negligible_of_lt before member
        · exact induction stairs remainingLater before placed

/-- Reducing the reduced rows places the same rows and leaves the same rows
active. -/
theorem ofEquations_ofEquations (nonnegative : 0 ≤ tolerance)
    (small : tolerance < 1) (equations : List (Equation ℚ n)) :
    ofEquations tolerance (ofEquations tolerance equations).toList =
        ofEquations tolerance equations ∧
      ∃ pivots, Finds tolerance equations pivots ∧
        Finds tolerance (ofEquations tolerance equations).toList pivots := by
  rcases exists_stairs nonnegative equations with ⟨pivots, course, stairs⟩
  have remaining : List.finRange n = (List.finRange n).drop 0 := rfl
  have again :=
    course_of_stairs stairs small remaining (fun _ _ => Nat.zero_le _) []
  have length :
      (ofEquations tolerance equations).placed.length = pivots.length := by
    rw [course.length_placed]
    exact Nat.zero_add _
  rw [List.nil_append, toList, ← length, List.take_left, List.drop_left]
    at again
  have same : ofEquations tolerance (ofEquations tolerance equations).toList =
      ofEquations tolerance equations :=
    again.eq_foldl.symm
  refine ⟨same, pivots, course, ?_⟩
  rw [Finds, same]
  exact again

end Echelon

namespace Tableau

variable {n : Nat} (tableau : Tableau ℚ n) (nonnegative : 0 ≤ tableau.tolerance)
  (small : tableau.tolerance < 1)

include nonnegative small

theorem echelon_reduce : tableau.reduce.echelon = tableau.echelon :=
  (Echelon.ofEquations_ofEquations nonnegative small tableau.equations).1

theorem reduce_reduce : tableau.reduce.reduce = tableau.reduce := by
  have again : tableau.reduce.reduce =
      { tableau.reduce with
        equations := tableau.reduce.echelon.toList, reduced := true } := rfl
  rw [again, tableau.echelon_reduce nonnegative small]
  rfl

theorem reductionNote_reduce :
    tableau.reduce.reductionNote = tableau.reductionNote := by
  rcases Echelon.exists_course tableau.tolerance (List.finRange n)
    ⟨[], tableau.equations⟩ with
    ⟨_, course⟩
  have height : tableau.reduce.height = tableau.height := course.length_toList
  rw [reductionNote, reductionNote, height,
    tableau.echelon_reduce nonnegative small]
  rfl

end Tableau

namespace Workbook

/-- Reducing a reduced sheet notes the same and changes no number, and both
times the same columns are given a pivot. -/
theorem perform_reduce_reduce (workbook later : Workbook ℚ) (sheet : Sheet ℚ)
    {tolerance : ℚ} (isTolerance : sheet.tableau.tolerance = tolerance)
    (nonnegative : 0 ≤ tolerance) (small : tolerance < 1) :
    later.perform (workbook.perform sheet .reduce).sheet .reduce =
        workbook.perform sheet .reduce ∧
      ∃ pivots : List (Fin sheet.unknowns),
        (∀ found, Echelon.Finds tolerance sheet.tableau.equations found ↔
          found = pivots) ∧
        ∀ found : List (Fin sheet.unknowns),
          Echelon.Finds tolerance
            (workbook.perform sheet .reduce).sheet.tableau.equations found ↔
          found = pivots := by
  subst isTolerance
  rcases Echelon.ofEquations_ofEquations nonnegative small
    sheet.tableau.equations with
    ⟨_, pivots, finds, findsAgain⟩
  constructor
  · have performed :
        later.perform (workbook.perform sheet .reduce).sheet .reduce =
          ⟨.ok .done, [sheet.tableau.reduce.reductionNote],
            ⟨sheet.unknowns, sheet.tableau.reduce.reduce⟩⟩ := rfl
    rw [performed, sheet.tableau.reduce_reduce nonnegative small,
      sheet.tableau.reductionNote_reduce nonnegative small]
    rfl
  · exact ⟨pivots, finds.iff_eq, findsAgain.iff_eq⟩

/-- Three equations at tolerance `1/10`. The first column keeps its small
entries, and the row of the first pivot its entry above the second one. -/
def leaningExample : Tableau ℚ 3 :=
  { equations :=
      [⟨#v[1 / 20, 1, 3], 1⟩, ⟨#v[-1 / 10, 2, 4], 5⟩, ⟨#v[0, 4, 10], 1⟩]
    tolerance := 1 / 10
    reduced := false }

theorem perform_reduce_reduce_leaningExample :
    (0 : ℚ) ≤ 1 / 10 ∧ (1 / 10 : ℚ) < 1 ∧
      leaningExample.reduce.equations.map Equation.toRow =
        [[0, 1, 5 / 2, 1 / 4], [-1 / 10, 0, 1, -9 / 2], [1 / 20, 0, 0, 3]] ∧
      perform [] ⟨3, leaningExample.reduce⟩ .reduce =
        perform [] ⟨3, leaningExample⟩ .reduce ∧
      Echelon.Finds (1 / 10) leaningExample.equations [1, 2] ∧
      Echelon.Finds (1 / 10) leaningExample.reduce.equations [1, 2] := by
  have nonnegative : (0 : ℚ) ≤ 1 / 10 := by decide +kernel
  have small : (1 / 10 : ℚ) < 1 := by decide +kernel
  have reduced : leaningExample.reduce.equations.map Equation.toRow =
      [[0, 1, 5 / 2, 1 / 4], [-1 / 10, 0, 1, -9 / 2], [1 / 20, 0, 0, 3]] := by
    decide +kernel
  have columns : leaningExample.reduce.pivotColumns = [1, 2] := by
    decide +kernel
  rcases perform_reduce_reduce [] [] ⟨3, leaningExample⟩ rfl nonnegative
    small with
    ⟨again, pivots, found, foundAgain⟩
  rcases Echelon.exists_stairs nonnegative leaningExample.equations with
    ⟨others, course, stairs⟩
  have isOthers : others = [1, 2] := (stairs.leads_eq small).symm.trans columns
  subst isOthers
  have isPivots : [1, 2] = pivots := (found [1, 2]).mp course
  exact ⟨nonnegative, small, reduced, again, course,
    (foundAgain [1, 2]).mpr isPivots⟩

end Workbook

end LiveLinear
