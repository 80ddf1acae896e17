import LiveLinear.Proofs.Elimination.Pivots

namespace LiveLinear

/-! # Rearranged equations

At tolerance zero it does not matter in which order equations stand, nor by
which numbers other than zero they are multiplied: the diagnostics are the same,
and so are the points to which a system without contradiction is solved. -/

/-- The values of one list, each exchanged for one that stands in a relation to
it, make up the other list in some order. -/
def Rearranged (Exchanged : β → γ → Prop) (left : List β) (right : List γ) :
    Prop :=
  ∃ exchanged, List.Forall₂ Exchanged left exchanged ∧ exchanged.Perm right

namespace Rearranged

variable {Exchanged : β → γ → Prop} {left : List β} {right : List γ}

theorem exists_right (rearranged : Rearranged Exchanged left right) {value : β}
    (member : value ∈ left) : ∃ other ∈ right, Exchanged value other := by
  rcases rearranged with ⟨exchanged, paired, perm⟩
  rcases List.mem_iff_get.mp member with ⟨place, rfl⟩
  have within : place.val < exchanged.length := by
    rw [← paired.length_eq]
    exact place.isLt
  exact ⟨exchanged.get ⟨place, within⟩, perm.mem_iff.mp (List.get_mem _ _),
    paired.get _ within⟩

theorem exists_left (rearranged : Rearranged Exchanged left right) {other : γ}
    (member : other ∈ right) : ∃ value ∈ left, Exchanged value other := by
  rcases rearranged with ⟨exchanged, paired, perm⟩
  rcases List.mem_iff_get.mp (perm.mem_iff.mpr member) with ⟨place, rfl⟩
  have within : place.val < left.length := by
    rw [paired.length_eq]
    exact place.isLt
  exact ⟨left.get ⟨place, within⟩, List.get_mem _ _, paired.get within _⟩

theorem forall_mem_iff (rearranged : Rearranged Exchanged left right)
    {Holds : β → Prop} {OtherHolds : γ → Prop}
    (unaffected : ∀ value ∈ left, ∀ other ∈ right, Exchanged value other →
      (Holds value ↔ OtherHolds other)) :
    (∀ value ∈ left, Holds value) ↔ ∀ other ∈ right, OtherHolds other := by
  constructor
  · intro holds other member
    rcases rearranged.exists_left member with ⟨value, isLeft, related⟩
    exact (unaffected value isLeft other member related).mp (holds value isLeft)
  · intro holds value member
    rcases rearranged.exists_right member with ⟨other, isRight, related⟩
    exact (unaffected value member other isRight related).mpr
      (holds other isRight)

end Rearranged

namespace Equation

variable {n : Nat} {equation other : Equation ℚ n}

/-- The coefficients and the sum are all multiplied by one number, which is not
zero. -/
def Multiplied (equation other : Equation ℚ n) : Prop :=
  ∃ factor : ℚ, factor ≠ 0 ∧ other.sum = factor * equation.sum ∧
    ∀ column, other.coefficient column = factor * equation.coefficient column

theorem Multiplied.residual_eq_zero_iff (multiplied : Multiplied equation other)
    (factor : ℚ) (point : Vector ℚ n) :
    (equation.rescale factor).residual point = 0 ↔
      (other.rescale factor).residual point = 0 := by
  rcases multiplied with ⟨multiplier, nonzero, sum, coefficients⟩
  have sums :
      (other.rescale factor).sum = multiplier *
        (equation.rescale factor).sum := by
    simp only [rescale, sum, mul_left_comm]
  have residual : (other.rescale factor).residual point =
      multiplier * (equation.rescale factor).residual point := by
    simp only [Equation.residual, coefficient_rescale, coefficients, sums,
      mul_sub, Finset.mul_sum, mul_assoc]
  rw [residual, mul_eq_zero, or_iff_right nonzero]

end Equation

theorem Rearranged.sameSolutions {n : Nat} {tableau other : Tableau ℚ n}
    (rearranged :
      Rearranged Equation.Multiplied tableau.equations other.equations) :
    Tableau.SameSolutions tableau other := by
  intro factor point
  apply rearranged.forall_mem_iff
  intro _ _ _ _ multiplied
  exact multiplied.residual_eq_zero_iff factor point

/-! ## Sheets -/

namespace Workbook

variable {n : Nat} {tableau other : Tableau ℚ n} {sheet another : Sheet ℚ}

/-- What two sheets with rearranged equations answer. -/
structure Agree (workbook : Workbook ℚ) (sheet another : Sheet ℚ) : Prop where
  isOverConstrained : ∃ isOver,
    (workbook.perform sheet .isOverConstrained).answer = .ok (.truth isOver) ∧
      (workbook.perform another .isOverConstrained).answer =
        .ok (.truth isOver) ∧
      (isOver = false → ∀ start,
        (workbook.perform sheet (.solve start)).answer =
          (workbook.perform another (.solve start)).answer)
  isUnderConstrained : ∃ isUnder,
    (workbook.perform sheet .isUnderConstrained).answer = .ok (.truth isUnder) ∧
      (workbook.perform another .isUnderConstrained).answer =
        .ok (.truth isUnder)
  rank : ∃ rank, (workbook.perform sheet .rank).answer = .ok (.count rank) ∧
    (workbook.perform another .rank).answer = .ok (.count rank)
  pivotColumns : ∃ columns,
    (workbook.perform sheet .pivotColumns).answer = .ok (.columns columns) ∧
      (workbook.perform another .pivotColumns).answer = .ok (.columns columns)

theorem agree_of_sameSolutions (workbook : Workbook ℚ)
    (exact_ : tableau.tolerance = 0) (otherExact : other.tolerance = 0)
    (unreduced : tableau.reduced = false)
    (otherUnreduced : other.reduced = false)
    (same : Tableau.SameSolutions tableau other) (shows : Shows tableau sheet)
    (otherShows : Shows other another) :
    workbook.Agree sheet another := by
  have inspected := inspect_of_shows unreduced shows
  have otherInspected := inspect_of_shows otherUnreduced otherShows
  have pivots := same.pivotColumns_eq exact_ otherExact
  have rank : tableau.reduce.rank = other.reduce.rank := by
    rw [tableau.reduce.rank_eq_length, other.reduce.rank_eq_length, pivots]
  have isOver := same.isOverConstrained_eq exact_ otherExact
  have isUnder :
      tableau.reduce.isUnderConstrained = other.reduce.isUnderConstrained := by
    rw [Tableau.isUnderConstrained, Tableau.isUnderConstrained, rank]
  constructor
  · refine ⟨tableau.reduce.isOverConstrained, inspected _,
      isOver ▸ otherInspected _, ?_⟩
    intro consistent start
    have solutions := same.solve_eq exact_ otherExact consistent
    refine (inspected _).trans (Eq.trans ?_ (otherInspected _).symm)
    simp only [Sheet.solve, Sheet.start, solutions]
  · exact ⟨_, inspected _, isUnder ▸ otherInspected _⟩
  · exact ⟨_, inspected _, rank ▸ otherInspected _⟩
  · exact ⟨_, inspected _, pivots ▸ otherInspected _⟩

end Workbook

end LiveLinear
