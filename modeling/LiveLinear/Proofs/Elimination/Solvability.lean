import Mathlib.Data.Fintype.Fin
import Mathlib.LinearAlgebra.Matrix.Echelon.Pivot
import LiveLinear.Proofs.Elimination.Accuracy
import LiveLinear.Proofs.Elimination.EchelonForm
import LiveLinear.Proofs.Elimination.Preservation

namespace LiveLinear

open Matrix

/-! # Solvability

What the reduced rows tell about the system they were made from, at tolerance
zero: whether it has a solution, the rank of its coefficients, and whether the
homogeneous system has a solution other than zero. -/

namespace Tableau

variable {n : Nat}

/-- The coefficients, one row for each equation. -/
def matrix (tableau : Tableau ℚ n) : Matrix (Fin tableau.height) (Fin n) ℚ :=
  Matrix.of fun row column => (tableau.equations.get row).coefficient column

def sums (tableau : Tableau ℚ n) : Fin tableau.height → ℚ :=
  fun row => (tableau.equations.get row).sum

theorem allHold_iff_mulVec (tableau : Tableau ℚ n) (factor : ℚ)
    (point : Vector ℚ n) :
    Equation.AllHold factor tableau.equations point ↔
      tableau.matrix *ᵥ point.get = factor • tableau.sums := by
  rw [Equation.AllHold, List.forall_mem_iff_get, funext_iff]
  apply forall_congr'
  intro row
  exact sub_eq_zero

theorem make_of_nonneg (equations : List (Equation ℚ n)) {tolerance : ℚ}
    (nonnegative : 0 ≤ tolerance) :
    make equations (some tolerance) = .ok ⟨equations, tolerance, false⟩ := by
  simp [make, not_lt.mpr nonnegative]

theorem make_exact (equations : List (Equation ℚ n)) :
    make equations (some 0) = .ok ⟨equations, 0, false⟩ :=
  make_of_nonneg equations le_rfl

theorem get_ofFn (point : Fin n → ℚ) : (Vector.ofFn point).get = point := by
  funext column
  exact Vector.getElem_ofFn column.isLt

theorem exists_allHold_iff (tableau : Tableau ℚ n) :
    (∃ point, Equation.AllHold 1 tableau.equations point) ↔
      ∃ point, tableau.matrix *ᵥ point = tableau.sums := by
  simp only [allHold_iff_mulVec, one_smul]
  constructor
  · rintro ⟨point, holds⟩
    exact ⟨point.get, holds⟩
  · rintro ⟨point, holds⟩
    exact ⟨Vector.ofFn point, (get_ofFn point).symm ▸ holds⟩

theorem mulVec_reduce_iff (tableau : Tableau ℚ n)
    (exact_ : tableau.tolerance = 0) (factor : ℚ) (point : Fin n → ℚ) :
    tableau.reduce.matrix *ᵥ point = factor • tableau.reduce.sums ↔
      tableau.matrix *ᵥ point = factor • tableau.sums := by
  rw [← get_ofFn point, ← allHold_iff_mulVec, ← allHold_iff_mulVec]
  exact tableau.allHold_reduce exact_ factor _

/-! ## Contradictions -/

theorem isOverConstrained_reduce_iff (tableau : Tableau ℚ n)
    (exact_ : tableau.tolerance = 0) :
    tableau.reduce.isOverConstrained = true ↔
      ¬∃ point : Vector ℚ n, Equation.AllHold 1 tableau.equations point := by
  constructor
  · rintro isOver ⟨point, holds⟩
    rcases List.any_eq_true.mp isOver with ⟨equation, member, contradiction⟩
    rw [Equation.isContradiction, Bool.and_eq_true] at contradiction
    rcases contradiction with ⟨isVoid, significant⟩
    have zeros : ∀ column, equation.coefficient column = 0 := by
      intro column
      have bounded := Equation.isVoid_iff.mp isVoid column
      exact abs_nonpos_iff.mp (bounded.trans exact_.le)
    have held :=
      (tableau.allHold_reduce exact_ 1 point).mpr holds equation member
    have sumZero : equation.sum = 0 := by
      simpa [Equation.residual, zeros] using held
    have differs := Scalar.significant_iff.mp significant
    rw [sumZero, abs_zero] at differs
    exact absurd exact_ differs.ne
  · intro unsolvable
    by_contra notOver
    apply unsolvable
    refine ⟨tableau.reduce.solve (Vector.ofFn fun _ => 0), ?_⟩
    intro equation member
    rw [Equation.rescale_one]
    exact tableau.residual_solve_eq_zero _ exact_
      (Bool.eq_false_of_not_eq_true notOver) member

/-! ## Rank -/

def leadOf (pivots : List (Fin n)) (row : Nat) : WithTop (Fin n) :=
  if within : row < pivots.length then (pivots[row] : WithTop (Fin n)) else ⊤

theorem leadOf_ne_top {pivots : List (Fin n)} {row : Nat} :
    leadOf pivots row ≠ ⊤ ↔ row < pivots.length := by
  rw [leadOf]
  split
  next within => simp [within]
  next past => simp [past]

theorem leadOf_lt {pivots : List (Fin n)} (ordered : pivots.Pairwise (· < ·))
    {row other : Nat} (before : row < other) (within : row < pivots.length) :
    leadOf pivots row < leadOf pivots other := by
  by_cases otherWithin : other < pivots.length
  · rw [leadOf, leadOf, dif_pos within, dif_pos otherWithin, WithTop.coe_lt_coe]
    exact List.pairwise_iff_getElem.mp ordered row other within
      otherWithin before
  · rw [leadOf, leadOf, dif_pos within, dif_neg otherWithin]
    exact WithTop.coe_lt_top _

end Tableau

namespace Echelon

variable {n : Nat} {pivots : List (Fin n)} {state : Echelon ℚ n}

theorem Shaped.length_placed {tolerance : ℚ}
    (shaped : Shaped tolerance pivots state) :
    state.placed.length = pivots.length :=
  shaped.led.length_eq.symm

theorem Shaped.coefficient_of_placed (shaped : Shaped 0 pivots state)
    {row : Nat} (within : row < pivots.length)
    (inList : row < state.toList.length) :
    state.toList[row].coefficient pivots[row] = 1 ∧
      ∀ column < pivots[row], state.toList[row].coefficient column = 0 := by
  have withinPlaced : row < state.placed.length := by rwa [shaped.length_placed]
  have leads := (List.forall₂_iff_get.mp shaped.led).2 row within withinPlaced
  have isPlaced : state.toList[row] = state.placed[row] :=
    List.getElem_append_left withinPlaced
  rw [isPlaced]
  exact ⟨leads.one, fun column before =>
    abs_nonpos_iff.mp (leads.negligible column before)⟩

theorem Shaped.coefficient_of_active (shaped : Shaped 0 pivots state)
    {row : Nat} (past : pivots.length ≤ row)
    (inList : row < state.toList.length) (column : Fin n) :
    state.toList[row].coefficient column = 0 := by
  have pastPlaced : state.placed.length ≤ row := by rwa [shaped.length_placed]
  have isActive : state.toList[row] ∈ state.active := by
    simp only [toList, List.getElem_append_right pastPlaced]
    exact List.getElem_mem _
  exact abs_nonpos_iff.mp
    (Equation.isVoid_iff.mp (shaped.isVoid _ isActive) column)

end Echelon

namespace Tableau

variable {n : Nat}

theorem exists_shaped_reduce (tableau : Tableau ℚ n)
    (exact_ : tableau.tolerance = 0) :
    ∃ pivots, Echelon.Shaped 0 pivots tableau.echelon := by
  rcases tableau.exists_course_reduce exact_ with ⟨pivots, _, shaped⟩
  exact ⟨pivots, shaped⟩

theorem pivotColumns_reduce_eq (tableau : Tableau ℚ n)
    (exact_ : tableau.tolerance = 0) {pivots : List (Fin n)}
    (shaped : Echelon.Shaped 0 pivots tableau.echelon) :
    tableau.reduce.pivotColumns = pivots := by
  rw [pivotColumns]
  exact exact_ ▸ shaped.leads_eq zero_lt_one

theorem isPivotedBy_reduce (tableau : Tableau ℚ n) {pivots : List (Fin n)}
    (shaped : Echelon.Shaped 0 pivots tableau.echelon) :
    tableau.reduce.matrix.IsPivotedBy fun row => leadOf pivots row.val := by
  apply Matrix.isPivotedBy_iff.mpr
  refine ⟨?_, ?_, ?_⟩
  · apply monotone_iff_forall_lt.mpr
    intro row other before
    by_cases within : row.val < pivots.length
    · exact (leadOf_lt shaped.ordered before within).le
    · have past : ¬other.val < pivots.length := by
        have later := Fin.lt_def.mp before
        omega
      rw [leadOf, leadOf, dif_neg within, dif_neg past]
  · intro row isLed other _ before
    exact leadOf_lt shaped.ordered before (leadOf_ne_top.mp isLed)
  · intro row
    by_cases within : row.val < pivots.length
    · have leads := shaped.coefficient_of_placed within row.isLt
      rw [leadOf, dif_pos within]
      constructor
      · intro column before
        exact leads.2 column (WithTop.coe_lt_coe.mp before)
      · intro column isLead
        rw [← WithTop.coe_inj.mp isLead]
        exact leads.1.trans_ne one_ne_zero
    · rw [leadOf, dif_neg within]
      constructor
      · intro column _
        exact shaped.coefficient_of_active (Nat.le_of_not_lt within)
          row.isLt column
      · intro column isLead
        exact absurd isLead WithTop.top_ne_coe

theorem rank_reduce_eq (tableau : Tableau ℚ n)
    (exact_ : tableau.tolerance = 0) :
    tableau.reduce.rank = tableau.reduce.matrix.rank := by
  rcases tableau.exists_shaped_reduce exact_ with ⟨pivots, shaped⟩
  have counted : tableau.reduce.rank = pivots.length := by
    rw [rank_eq_length, tableau.pivotColumns_reduce_eq exact_ shaped]
  have bounded : pivots.length ≤ tableau.reduce.height := by
    rw [← shaped.length_placed]
    exact (List.sublist_append_left _ _).length_le
  rw [counted, (tableau.isPivotedBy_reduce shaped).rank_eq]
  simp only [leadOf_ne_top, Fin.card_filter_val_lt]
  exact (Nat.min_eq_right bounded).symm

theorem ker_reduce (tableau : Tableau ℚ n) (exact_ : tableau.tolerance = 0) :
    LinearMap.ker tableau.reduce.matrix.mulVecLin =
      LinearMap.ker tableau.matrix.mulVecLin := by
  ext point
  have same := tableau.mulVec_reduce_iff exact_ 0 point
  rw [zero_smul, zero_smul] at same
  simpa only [LinearMap.mem_ker, Matrix.mulVecLin_apply] using same

theorem rank_add_nullity (tableau : Tableau ℚ n) :
    tableau.matrix.rank + Module.finrank ℚ
      (LinearMap.ker tableau.matrix.mulVecLin) = n := by
  have dimension :=
    LinearMap.finrank_range_add_finrank_ker tableau.matrix.mulVecLin
  rwa [Module.finrank_fin_fun] at dimension

theorem rank_reduce (tableau : Tableau ℚ n) (exact_ : tableau.tolerance = 0) :
    tableau.reduce.rank = tableau.matrix.rank := by
  have before := tableau.rank_add_nullity
  have after := tableau.reduce.rank_add_nullity
  rw [tableau.ker_reduce exact_] at after
  rw [tableau.rank_reduce_eq exact_]
  omega

theorem isUnderConstrained_reduce_iff (tableau : Tableau ℚ n)
    (exact_ : tableau.tolerance = 0) :
    tableau.reduce.isUnderConstrained = true ↔ ∃ point ≠ 0,
      tableau.matrix *ᵥ point = 0 := by
  have dimension := tableau.rank_add_nullity
  have deficient : tableau.matrix.rank < n ↔
      1 ≤ Module.finrank ℚ (LinearMap.ker tableau.matrix.mulVecLin) := by
    omega
  rw [isUnderConstrained, decide_eq_true_iff, tableau.rank_reduce exact_,
    deficient, Submodule.one_le_finrank_iff, Submodule.ne_bot_iff]
  simp only [LinearMap.mem_ker, Matrix.mulVecLin_apply, and_comm]

end Tableau

/-! ## Diagnostics -/

namespace Workbook

variable {n : Nat}

/-- The sheet holds a tableau as it was made, or the reduced one that came out
of it. -/
def Shows (tableau : Tableau ℚ n) (sheet : Sheet ℚ) : Prop :=
  sheet = ⟨n, tableau⟩ ∨ sheet = ⟨n, tableau.reduce⟩

theorem inspect_of_shows {tableau : Tableau ℚ n}
    (unreduced : tableau.reduced = false) {sheet : Sheet ℚ}
    (shows : Shows tableau sheet)
    (answer : Sheet ℚ → Except (Failure ℚ) (Sheet.Answer ℚ)) :
    (inspect sheet answer).answer = answer ⟨n, tableau.reduce⟩ :=
  (inspect_reduced unreduced shows answer).1

theorem exists_perform_reduce (workbook : Workbook ℚ) {tableau : Tableau ℚ n}
    (exact_ : tableau.tolerance = 0) {sheet : Sheet ℚ}
    (shows : Shows tableau sheet) :
    ∃ reduced : Tableau ℚ n,
      (workbook.perform sheet .reduce).sheet = ⟨n, reduced⟩ ∧ ∀ point,
        reduced.matrix *ᵥ point = reduced.sums ↔
        tableau.matrix *ᵥ point = tableau.sums := by
  have once (other : Tableau ℚ n) (otherExact : other.tolerance = 0)
    (point : Fin n → ℚ) :
      other.reduce.matrix *ᵥ point = other.reduce.sums ↔
        other.matrix *ᵥ point = other.sums := by
    simpa only [one_smul] using other.mulVec_reduce_iff otherExact 1 point
  rcases shows with rfl | rfl
  · exact ⟨tableau.reduce, rfl, once tableau exact_⟩
  · refine ⟨tableau.reduce.reduce, rfl, ?_⟩
    intro point
    exact (once tableau.reduce exact_ point).trans (once tableau exact_ point)

/-- Any equations make a tableau at tolerance zero. Its diagnostics, whether
asked before it is reduced or afterwards, decide its system `A x = b`:
over-constrained means that there is no solution, the rank is that of `A`, and
under-constrained means that `A y = 0` has a solution other than zero. Reducing
keeps the solutions. -/
theorem perform_diagnoses (workbook : Workbook ℚ)
    (equations : List (Equation ℚ n)) :
    ∃ tableau, Tableau.make equations (some 0) = .ok tableau ∧
      tableau.equations = equations ∧
      ∀ sheet, Shows tableau sheet →
        (∃ isOver,
          (workbook.perform sheet .isOverConstrained).answer =
            .ok (.truth isOver) ∧
          (isOver = true ↔ ¬∃ point, tableau.matrix *ᵥ point = tableau.sums)) ∧
        (workbook.perform sheet .rank).answer =
          .ok (.count tableau.matrix.rank) ∧
        (∃ under,
          (workbook.perform sheet .isUnderConstrained).answer =
            .ok (.truth under) ∧
          (under = true ↔ ∃ point ≠ 0, tableau.matrix *ᵥ point = 0)) ∧
        ∃ reduced : Tableau ℚ n,
          (workbook.perform sheet .reduce).sheet = ⟨n, reduced⟩ ∧
          ∀ point, reduced.matrix *ᵥ point = reduced.sums ↔
            tableau.matrix *ᵥ point = tableau.sums := by
  let tableau : Tableau ℚ n := ⟨equations, 0, false⟩
  have exact_ : tableau.tolerance = 0 := rfl
  have unreduced : tableau.reduced = false := rfl
  refine ⟨tableau, Tableau.make_exact equations, rfl, ?_⟩
  intro sheet shows
  refine ⟨⟨tableau.reduce.isOverConstrained, ?_, ?_⟩, ?_,
    ⟨tableau.reduce.isUnderConstrained, ?_, ?_⟩, ?_⟩
  · exact inspect_of_shows unreduced shows _
  · rw [tableau.isOverConstrained_reduce_iff exact_]
    exact not_congr (tableau.exists_allHold_iff)
  · rw [← tableau.rank_reduce exact_]
    exact inspect_of_shows unreduced shows _
  · exact inspect_of_shows unreduced shows _
  · exact tableau.isUnderConstrained_reduce_iff exact_
  · exact workbook.exists_perform_reduce exact_ shows

/-- Three equations over two unknowns; the third is twice the first but for its
sum. -/
def clashExample : Tableau ℚ 2 :=
  { equations := [⟨#v[1, 2], 3⟩, ⟨#v[0, 0], 0⟩, ⟨#v[2, 4], 7⟩]
    tolerance := 0
    reduced := false }

theorem perform_diagnoses_clashExample :
    Tableau.make clashExample.equations (some 0) = .ok clashExample ∧
      Shows clashExample ⟨2, clashExample⟩ ∧
      (perform [] ⟨2, clashExample⟩ .isOverConstrained).answer =
        .ok (.truth true) ∧
      (¬∃ point, clashExample.matrix *ᵥ point = clashExample.sums) ∧
      (perform [] ⟨2, clashExample⟩ .rank).answer =
        .ok (.count clashExample.matrix.rank) := by
  have shows : Shows clashExample ⟨2, clashExample⟩ := .inl rfl
  have isOver : (perform [] ⟨2, clashExample⟩ .isOverConstrained).answer =
      .ok (.truth true) := by
    have found : clashExample.reduce.isOverConstrained = true := by
      decide +kernel
    rw [← found]
    rfl
  rcases perform_diagnoses [] clashExample.equations with
    ⟨tableau, isMade, _, diagnoses⟩
  have isExample :
      Tableau.make clashExample.equations (some 0) = .ok clashExample :=
    Tableau.make_exact _
  cases Except.ok.inj (isMade.symm.trans isExample)
  rcases diagnoses _ shows with ⟨⟨answer, answered, decides⟩, rank, _, _⟩
  rw [isOver] at answered
  cases answered
  exact ⟨isExample, shows, isOver, decides.mp rfl, rank⟩

end Workbook

end LiveLinear
