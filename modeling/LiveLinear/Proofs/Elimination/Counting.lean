import LiveLinear.Proofs.Elimination.EchelonForm
import LiveLinear.Proofs.Elimination.Exact

namespace LiveLinear

/-! # Two counts of the rank

Elimination counts the pivots that it places. Asked afterwards, the reduced rows
tell another number: how many of them are not void. A row is placed for an entry
beyond the tolerance, but then it is divided by that entry; so it may be void in
the end. At a tolerance below one the one at the pivot keeps it from that. -/

variable {α : Type u} {n : Nat} [Scalar α]

namespace Echelon

variable [OrderedScalar α] {tolerance : α}

theorem independent_ofEquations (nonnegative : 0 ≤ tolerance)
    (equations : List (Equation α n)) :
    Equation.independent tolerance (ofEquations tolerance equations).toList =
      (ofEquations tolerance equations).placed.countP fun row =>
        !row.isVoid tolerance := by
  rcases exists_outline nonnegative equations with ⟨_, _, _, _, isVoid⟩
  have active : (ofEquations tolerance equations).active.countP
      (fun row => !row.isVoid tolerance) = 0 := by
    apply List.countP_eq_zero.mpr
    intro equation member
    simp [isVoid equation member]
  rw [Equation.independent, toList, List.countP_append, active, Nat.add_zero]

theorem independent_ofEquations_le (nonnegative : 0 ≤ tolerance)
    (equations : List (Equation α n)) :
    Equation.independent tolerance (ofEquations tolerance equations).toList ≤
      (ofEquations tolerance equations).rank := by
  rw [independent_ofEquations nonnegative]
  exact List.countP_le_length

theorem independent_ofEquations_eq_iff (nonnegative : 0 ≤ tolerance)
    (equations : List (Equation α n)) :
    Equation.independent tolerance (ofEquations tolerance equations).toList =
        (ofEquations tolerance equations).rank ↔
      ∀ row ∈ (ofEquations tolerance equations).placed,
        row.isVoid tolerance = false := by
  rw [independent_ofEquations nonnegative, rank, List.countP_eq_length]
  simp only [Bool.not_eq_true']

theorem not_isVoid_of_placed (nonnegative : 0 ≤ tolerance)
    (small : tolerance < 1) (equations : List (Equation α n)) :
    ∀ row ∈ (ofEquations tolerance equations).placed,
      row.isVoid tolerance = false := by
  rcases exists_outline nonnegative equations with ⟨_, _, _, heads, _⟩
  intro row member
  rcases List.mem_iff_getElem.mp member with ⟨index, within, rfl⟩
  have inPivots := heads.length_eq.symm ▸ within
  exact ((List.forall₂_iff_get.mp heads).2 index inPivots
    within).not_isVoid small

end Echelon

namespace Workbook

/-- Reducing a sheet notes how many pivots it has placed; they are in the first
rows. Afterwards the rank and the number of pivot columns are the same, and at
most that. They are that number exactly if none of the first rows is void, and
always so at a tolerance below one. -/
theorem perform_reduce_counts [OrderedScalar α] (workbook : Workbook α)
    (sheet : Sheet α) {tolerance : α}
    (isTolerance : sheet.tableau.tolerance = tolerance)
    (nonnegative : 0 ≤ tolerance) :
    ∃ (placed rank : Nat) (columns : List Nat),
      (workbook.perform sheet .reduce).notes =
          [.reduced sheet.tableau.height sheet.tableau.width placed] ∧
        (∀ later : Workbook α,
          (later.perform (workbook.perform sheet .reduce).sheet .rank).answer =
              .ok (.count rank) ∧
            (later.perform (workbook.perform sheet .reduce).sheet
              .pivotColumns).answer = .ok (.columns columns)) ∧
        columns.length = rank ∧ rank ≤ placed ∧
        (rank = placed ↔
          ∀ row ∈ (workbook.perform sheet .reduce).sheet.tableau.equations.take
            placed, row.isVoid tolerance = false) ∧
        (tolerance < 1 → rank = placed) := by
  subst isTolerance
  have counts : sheet.tableau.reduce.rank = sheet.tableau.echelon.rank ↔
      ∀ row ∈ sheet.tableau.echelon.placed,
      row.isVoid sheet.tableau.tolerance = false :=
    Echelon.independent_ofEquations_eq_iff nonnegative sheet.tableau.equations
  have first : sheet.tableau.reduce.equations.take sheet.tableau.echelon.rank =
      sheet.tableau.echelon.placed :=
    List.take_left
  refine ⟨sheet.tableau.echelon.rank, sheet.tableau.reduce.rank,
    sheet.tableau.reduce.pivotColumns.map Fin.val, rfl, fun _ => ⟨rfl, rfl⟩, ?_,
    ?_, ?_, ?_⟩
  · rw [List.length_map]
    exact Equation.length_leads _ _
  · exact Echelon.independent_ofEquations_le nonnegative sheet.tableau.equations
  · rw [← first] at counts
    exact counts
  · intro small
    apply counts.mpr
    exact Echelon.not_isVoid_of_placed nonnegative small sheet.tableau.equations

/-- The equation `2 * x = 3`, read at tolerance one. -/
def halvedExample : Tableau ℚ 1 :=
  { equations := [⟨#v[2], 3⟩]
    tolerance := 1
    reduced := false }

/-- Its entry is beyond the tolerance, so it is given the pivot. But the entry
that is left of it is one and does not count: the rank is zero afterwards. -/
theorem perform_reduce_counts_halvedExample :
    Tableau.make halvedExample.equations (some 1) = .ok halvedExample ∧
      (0 : ℚ) ≤ halvedExample.tolerance ∧
      (perform [] ⟨1, halvedExample⟩ .reduce).notes = [.reduced 1 2 1] ∧
      (perform [] (perform [] ⟨1, halvedExample⟩ .reduce).sheet .rank).answer =
        .ok (.count 0) ∧
      (perform [] (perform [] ⟨1, halvedExample⟩ .reduce).sheet
        .pivotColumns).answer = .ok (.columns []) := by
  have nonnegative : (0 : ℚ) ≤ 1 := by decide +kernel
  have isOne : halvedExample.echelon.rank = 1 := by decide +kernel
  have isVoid : ¬∀ row ∈ halvedExample.reduce.equations.take 1,
      row.isVoid (1 : ℚ) = false := by
    decide +kernel
  have made :
      Tableau.make halvedExample.equations (some 1) = .ok halvedExample := by
    simp [Tableau.make, halvedExample]
  have noted :
      (perform [] ⟨1, halvedExample⟩ .reduce).notes = [.reduced 1 2 1] :=
    congrArg (fun rank => [Note.reduced 1 2 rank]) isOne
  rcases perform_reduce_counts [] ⟨1, halvedExample⟩ rfl nonnegative with
    ⟨placed, rank, columns, notes, answers, length, atMost, counts, _⟩
  have isPlaced : placed = 1 := by
    rw [noted] at notes
    exact ((Note.reduced.inj (List.cons.inj notes).1).2.2).symm
  subst isPlaced
  have isRank : rank = 0 := by
    have different : rank ≠ 1 := fun same => isVoid (counts.mp same)
    omega
  subst isRank
  have isColumns : columns = [] := List.eq_nil_of_length_eq_zero length
  subst isColumns
  exact ⟨made, nonnegative, noted, answers []⟩

end Workbook

end LiveLinear
