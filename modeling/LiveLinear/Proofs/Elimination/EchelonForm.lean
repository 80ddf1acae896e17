import Mathlib.Data.Fintype.Card
import LiveLinear.Proofs.Elimination.Sheets

namespace LiveLinear

/-! # Echelon form

Reduced rows descend like stairs: the row of a pivot has one there and only
negligible entries before, the rows below it have zero there, and the rows
without a pivot are void. The ones and the zeros are assigned and not computed,
so this holds however the other entries are rounded. -/

variable {α : Type u} {n : Nat} [Scalar α]

namespace Equation

/-- Rows in echelon form, from the first one down. -/
inductive Stairs (tolerance : α) : List (Fin n) → List (Equation α n) → Prop
  | ground {rows}
      (isVoid : ∀ equation ∈ rows, equation.isVoid tolerance = true) :
      Stairs tolerance [] rows
  | stair {pivot row pivots rows} (heads : Heads tolerance pivot row)
      (cleared : ∀ equation ∈ rows, equation.coefficient pivot = 0)
      (leftmost : ∀ later ∈ pivots, pivot < later)
      (lower : Stairs tolerance pivots rows) :
      Stairs tolerance (pivot :: pivots) (row :: rows)

namespace Stairs

variable {tolerance : α} {pivots : List (Fin n)} {rows : List (Equation α n)}

theorem pairwise (stairs : Stairs tolerance pivots rows) :
    pivots.Pairwise (· < ·) := by
  induction stairs with
  | ground => exact List.Pairwise.nil
  | stair _ _ leftmost _ induction =>
      exact List.Pairwise.cons leftmost induction

theorem length_le (stairs : Stairs tolerance pivots rows) :
    pivots.length ≤ rows.length := by
  induction stairs with
  | ground => exact Nat.zero_le _
  | stair _ _ _ _ induction => exact Nat.succ_le_succ induction

theorem heads_getElem (stairs : Stairs tolerance pivots rows) {row : Nat}
    (within : row < pivots.length) (inside : row < rows.length) :
    Heads tolerance pivots[row] rows[row] := by
  induction stairs generalizing row with
  | ground => exact absurd within (Nat.not_lt_zero row)
  | stair heads _ _ _ induction =>
      cases row with
      | zero => exact heads
      | succ row =>
          exact induction (Nat.lt_of_succ_lt_succ within)
            (Nat.lt_of_succ_lt_succ inside)

theorem coefficient_getElem_of_lt (stairs : Stairs tolerance pivots rows)
    {row below : Nat} (within : row < pivots.length)
    (inside : below < rows.length) (lower : row < below) :
    rows[below].coefficient pivots[row] = 0 := by
  induction stairs generalizing row below with
  | ground => exact absurd within (Nat.not_lt_zero row)
  | stair _ cleared _ _ induction =>
      cases below with
      | zero => exact absurd lower (Nat.not_lt_zero row)
      | succ below =>
          have insideLater := Nat.lt_of_succ_lt_succ inside
          cases row with
          | zero => exact cleared _ (List.getElem_mem insideLater)
          | succ row =>
              exact induction (Nat.lt_of_succ_lt_succ within) insideLater
                (Nat.lt_of_succ_lt_succ lower)

theorem isVoid_getElem (stairs : Stairs tolerance pivots rows) {row : Nat}
    (past : pivots.length ≤ row) (inside : row < rows.length) :
    rows[row].isVoid tolerance = true := by
  induction stairs generalizing row with
  | ground isVoid => exact isVoid _ (List.getElem_mem inside)
  | stair _ _ _ _ induction =>
      cases row with
      | zero => exact absurd past (Nat.not_succ_le_zero _)
      | succ row =>
          exact induction (Nat.le_of_succ_le_succ past)
            (Nat.lt_of_succ_lt_succ inside)

theorem negligible_of_lt (stairs : Stairs tolerance pivots rows)
    {column : Fin n} (before : ∀ pivot ∈ pivots, column < pivot)
    {equation : Equation α n} (member : equation ∈ rows) :
    Scalar.negligible tolerance (equation.coefficient column) = true := by
  induction stairs with
  | ground isVoid =>
      exact isVoid_iff_negligible.mp (isVoid equation member) column
  | stair heads _ _ _ induction =>
      rcases List.forall_mem_cons.mp before with ⟨beforeFirst, beforeLater⟩
      rcases List.mem_cons.mp member with rfl | isLower
      · exact heads.negligible column beforeFirst
      · exact induction beforeLater isLower

theorem leads_eq [OrderedScalar α] (stairs : Stairs tolerance pivots rows)
    (small : tolerance < 1) : leads tolerance rows = pivots := by
  induction stairs with
  | ground isVoid => exact leads_append_of_isVoid [] isVoid
  | stair heads _ _ _ induction =>
      rw [leads_cons_of_lead (heads.lead?_eq small), induction]

end Stairs

/-- Rows in echelon form, entry by entry. -/
structure EchelonForm (tolerance : α) (pivots : List (Fin n))
    (rows : List (Equation α n)) :
    Prop where
  length_le : pivots.length ≤ min rows.length n
  ordered : pivots.Pairwise (· < ·)
  one : ∀ (row : Nat) (within : row < pivots.length)
    (inside : row < rows.length), rows[row].coefficient pivots[row] = 1
  zero : ∀ (row below : Nat) (within : row < pivots.length)
    (inside : below < rows.length), row < below →
    rows[below].coefficient pivots[row] = 0
  before : ∀ (row : Nat) (within : row < pivots.length)
    (inside : row < rows.length), ∀ column < pivots[row],
    Scalar.magnitude (rows[row].coefficient column) ≤ tolerance
  rest : ∀ (row : Nat) (inside : row < rows.length), pivots.length ≤ row →
    ∀ column, Scalar.magnitude (rows[row].coefficient column) ≤ tolerance

theorem Stairs.echelonForm {tolerance : α} {pivots : List (Fin n)}
    {rows : List (Equation α n)} (stairs : Stairs tolerance pivots rows) :
    EchelonForm tolerance pivots rows := by
  constructor
  · have nodup : pivots.Nodup := stairs.pairwise.imp ne_of_lt
    have within : pivots.length ≤ n := by simpa using nodup.length_le_card
    exact Nat.le_min.mpr ⟨stairs.length_le, within⟩
  · exact stairs.pairwise
  · intro row within inside
    exact (stairs.heads_getElem within inside).one
  · intro row below within inside lower
    exact stairs.coefficient_getElem_of_lt within inside lower
  · intro row within inside column earlier
    exact of_decide_eq_true
      ((stairs.heads_getElem within inside).negligible column earlier)
  · intro row inside past column
    have isVoid := stairs.isVoid_getElem past inside
    exact of_decide_eq_true (isVoid_iff_negligible.mp isVoid column)

theorem exists_lead {tolerance : α} {equation : Equation α n}
    (isFull : equation.isVoid tolerance = false) :
    ∃ lead, equation.lead? tolerance = some lead := by
  cases n with
  | zero =>
      have isVoid : equation.isVoid tolerance = true :=
        isVoid_iff_negligible.mpr fun column => column.elim0
      rw [isVoid] at isFull
      cases isFull
  | succ n =>
      simp only [lead?, isFull, Bool.false_eq_true, if_false,
        List.finRange_succ, List.head?_cons]
      cases (0 :: (List.finRange n).map Fin.succ).find? fun column =>
          Scalar.significant tolerance (equation.coefficient column) with
      | none => exact ⟨0, rfl⟩
      | some lead => exact ⟨lead, rfl⟩

theorem length_leads (tolerance : α) (rows : List (Equation α n)) :
    (leads tolerance rows).length = independent tolerance rows := by
  induction rows with
  | nil => rfl
  | cons row rows induction =>
      rw [independent] at induction ⊢
      cases isVoid : row.isVoid tolerance with
      | true =>
          rw [leads_cons_of_none (lead?_of_isVoid isVoid),
            List.countP_cons_of_neg (by simp [isVoid]), induction]
      | false =>
          rcases exists_lead isVoid with ⟨lead, isLead⟩
          rw [leads_cons_of_lead isLead,
            List.countP_cons_of_pos (by simp [isVoid]), List.length_cons,
            induction]

end Equation

theorem Tableau.rank_eq_length (tableau : Tableau α n) :
    tableau.rank = tableau.pivotColumns.length :=
  (Equation.length_leads tableau.tolerance tableau.equations).symm

namespace Echelon

open Equation (Stairs)

theorem Course.length_toList {tolerance : α} {columns pivots : List (Fin n)}
    {state final : Echelon α n}
    (course : Course tolerance columns state pivots final) :
    final.toList.length = state.toList.length := by
  induction course with
  | done => rfl
  | skip _ _ induction => exact induction
  | @place column columns placed first rest pivot others pivots final chosen _ _
      induction =>
      have permutation := choosePivot_perm column first rest
      rw [chosen] at permutation
      have length := permutation.length_eq
      rw [induction]
      simp only [toList, List.length_append, List.length_map, List.length_cons,
        List.length_nil]
        at length ⊢
      omega

/-- The rows that a course adds to the placed ones, and those that it leaves
active, are in echelon form. Columns that have been passed are not touched any
more: where all active rows have zero, all rows keep it. -/
theorem Course.stairs [OrderedScalar α] {tolerance : α}
    {columns pivots : List (Fin n)} {state final : Echelon α n}
    (course : Course tolerance columns state pivots final)
    (nonnegative : 0 ≤ tolerance) {count : Nat}
    (remaining : columns = (List.finRange n).drop count)
    (blank : Blank tolerance count state.active) :
    ∃ rows, final.toList = state.placed ++ rows ∧ Stairs tolerance pivots rows ∧
      ∀ column : Fin n, column.val < count →
        (∀ equation ∈ state.active, equation.coefficient column = 0) →
          ∀ equation ∈ rows, equation.coefficient column = 0 := by
  induction course generalizing count with
  | done state =>
      have isVoid := blank.isVoid (le_of_drop_eq_nil remaining)
      exact ⟨state.active, rfl, .ground isVoid, fun _ _ zeros => zeros⟩
  | @skip column columns state pivots final unpivoted later induction =>
      rcases columns_of_drop remaining with ⟨rfl, remainingLater⟩
      rcases induction remainingLater (blank.skip unpivoted) with
        ⟨rows, isList, stairs, keeps⟩
      exact ⟨rows, isList, stairs, fun other before =>
        keeps other (Nat.lt_succ_of_lt before)⟩
  | @place column columns placed first rest pivot others pivots final chosen
      significant later induction =>
      rcases columns_of_drop remaining with ⟨rfl, remainingLater⟩
      have blankBoth := blank.of_chosen chosen
      rcases induction remainingLater (blankBoth.eliminate nonnegative) with
        ⟨rows, isList, stairs, keeps⟩
      have cleared : ∀ equation ∈ rows, equation.coefficient column = 0 := by
        apply keeps column (Nat.lt_succ_self _)
        intro equation member
        rcases List.mem_map.mp member with ⟨source, _, rfl⟩
        exact Equation.coefficient_eliminate_self pivot source column
      have leftmost : ∀ other ∈ pivots, column < other := fun other member =>
        Fin.lt_def.mpr (later.le_of_mem_pivots remainingLater member)
      refine ⟨pivot.scale column :: rows, ?_,
        .stair blankBoth.heads_scale cleared leftmost stairs, ?_⟩
      · rw [isList, List.append_assoc, List.singleton_append]
      · intro other before zeros
        have earlier : other < column := Fin.lt_def.mpr before
        have zerosBoth : ∀ equation ∈ pivot :: others,
            equation.coefficient other = 0 := by
          have permutation := choosePivot_perm column first rest
          rw [chosen] at permutation
          exact fun equation member =>
            zeros equation (permutation.mem_iff.mp member)
        refine List.forall_mem_cons.mpr ⟨?_, ?_⟩
        · rw [Equation.coefficient_scale_of_lt _ earlier]
          exact zerosBoth pivot List.mem_cons_self
        · apply keeps other (Nat.lt_succ_of_lt before)
          intro equation member
          rcases List.mem_map.mp member with ⟨source, isOther, rfl⟩
          rw [Equation.coefficient_eliminate_of_lt _ _ earlier]
          exact zerosBoth source (List.mem_cons_of_mem _ isOther)

theorem exists_stairs [OrderedScalar α] {tolerance : α}
    (nonnegative : 0 ≤ tolerance) (equations : List (Equation α n)) :
    ∃ pivots,
      Course tolerance (List.finRange n) ⟨[], equations⟩ pivots
          (ofEquations tolerance equations) ∧
        Stairs tolerance pivots (ofEquations tolerance equations).toList := by
  rcases exists_course tolerance (List.finRange n) ⟨[], equations⟩ with
    ⟨pivots, course⟩
  have remaining : List.finRange n = (List.finRange n).drop 0 := rfl
  rcases course.stairs nonnegative remaining (Blank.zero _ _) with
    ⟨rows, isList, stairs, -⟩
  rw [List.nil_append] at isList
  exact ⟨pivots, course, isList ▸ stairs⟩

end Echelon

namespace Workbook

/-- At a tolerance from zero to below one, a sheet is reduced to echelon form.
Afterwards its pivots are its pivot columns, and their number is its rank. -/
theorem perform_reduce_echelonForm [OrderedScalar α] (workbook : Workbook α)
    (sheet : Sheet α) {tolerance : α}
    (isTolerance : sheet.tableau.tolerance = tolerance)
    (nonnegative : 0 ≤ tolerance) (small : tolerance < 1) :
    ∃ (reduced : Tableau α sheet.unknowns) (pivots : List (Fin sheet.unknowns)),
      (workbook.perform sheet .reduce).sheet = ⟨sheet.unknowns, reduced⟩ ∧
        reduced.height = sheet.tableau.height ∧ reduced.tolerance = tolerance ∧
        Equation.EchelonForm tolerance pivots reduced.equations ∧
        ∀ later : Workbook α,
          (later.perform ⟨sheet.unknowns, reduced⟩ .pivotColumns).answer =
              .ok (.columns (pivots.map Fin.val)) ∧
            (later.perform ⟨sheet.unknowns, reduced⟩ .rank).answer =
              .ok (.count pivots.length) := by
  subst isTolerance
  rcases Echelon.exists_stairs nonnegative sheet.tableau.equations with
    ⟨pivots, course, stairs⟩
  have columns : sheet.tableau.reduce.pivotColumns = pivots :=
    stairs.leads_eq small
  have rank : sheet.tableau.reduce.rank = pivots.length := by
    rw [Tableau.rank_eq_length, columns]
  refine ⟨sheet.tableau.reduce, pivots, rfl, course.length_toList, rfl,
    stairs.echelonForm, ?_⟩
  intro later
  constructor
  · rw [← columns]
    rfl
  · rw [← rank]
    rfl

/-- Three equations in floating point. The first column has negligible entries
only, and the multiple of the second row that clears the second column is
rounded. -/
def unevenExample : Tableau Float 3 :=
  { equations := [⟨#v[1e-7, 0.1, 0.7], 0.2⟩, ⟨#v[1e-8, 0.3, 2.1], 0.6⟩,
    ⟨#v[0, 0.2, 0.2], 0.1⟩]
    tolerance := standardTolerance
    reduced := false }

theorem perform_reduce_echelonForm_unevenExample :
    0 ≤ standardTolerance ∧ standardTolerance < 1 ∧
      ∃ reduced : Tableau Float 3,
        (perform [] ⟨3, unevenExample⟩ .reduce).sheet = ⟨3, reduced⟩ ∧
          Equation.EchelonForm standardTolerance [1, 2] reduced.equations ∧
          (perform [] ⟨3, reduced⟩ .rank).answer = .ok (.count 2) := by
  have nonnegative : 0 ≤ standardTolerance := by decide +kernel
  have small : standardTolerance < 1 := by decide +kernel
  have columns : unevenExample.reduce.pivotColumns = [1, 2] := by decide +kernel
  rcases perform_reduce_echelonForm [] ⟨3, unevenExample⟩ rfl nonnegative
    small with
    ⟨reduced, pivots, isSheet, _, _, form, answers⟩
  cases isSheet
  have answered :
      unevenExample.reduce.pivotColumns.map Fin.val = pivots.map Fin.val :=
    Sheet.Answer.columns.inj (Except.ok.inj (answers []).1)
  have isPivots : pivots = [1, 2] := by
    rw [← columns]
    exact (Fin.val_injective.list_map answered).symm
  subst isPivots
  exact ⟨nonnegative, small, _, rfl, form, (answers []).2⟩

end Workbook

end LiveLinear
