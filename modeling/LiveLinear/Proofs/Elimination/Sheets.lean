import LiveLinear.Tableau.Sheet
import LiveLinear.Proofs.Elimination.Outline

namespace LiveLinear

/-! # Solving sheets

What a sheet answers when it is asked for a solution from given values, and that
it answers the same when it is asked again from its own answer. -/

namespace Block

variable {α : Type u}

/-- Values along one axis. -/
def ofValues (values : List α) : Block α :=
  .spelled (.node (values.map .leaf))

theorem ofChildren?_map_leaf (values : List α) :
    Grid.ofChildren? (values.map .leaf) =
      some (values.map fun value => ⟨[], [value]⟩) := by
  induction values with
  | nil => rfl
  | cons value values induction =>
      simp only [List.map_cons, Grid.ofChildren?, Grid.ofNested?, induction]

theorem grid_ofValues [Zero α] (values : List α) :
    (ofValues values).grid = .ok ⟨[values.length], values⟩ := by
  have stacked :
      Grid.stack? (values.map fun value => (⟨[], [value]⟩ : Grid α)) =
        some ⟨[values.length], values⟩ := by
    cases values with
    | nil => rfl
    | cons value values => simp [Grid.stack?, List.flatMap_map]
  have read :
      Grid.ofNested? (.node (values.map .leaf)) =
        some ⟨[values.length], values⟩ := by
    rw [Grid.ofNested?, ofChildren?_map_leaf]
    exact stacked
  simp [grid, ofValues, read, Grid.limited, Grid.axisLimit]

end Block

variable {α : Type u} [Scalar α]

theorem Sheet.start_ofValues (sheet : Sheet α)
    (point : Vector α sheet.unknowns) :
    sheet.start (some (.ofValues point.toList)) = .ok point := by
  simp [start, Block.grid_ofValues, Except.bind]

namespace Workbook

variable {n : Nat}

theorem inspect_reduced {tableau : Tableau α n}
    (unreduced : tableau.reduced = false) {sheet : Sheet α}
    (shows : sheet = ⟨n, tableau⟩ ∨ sheet = ⟨n, tableau.reduce⟩)
    (answer : Sheet α → Except (Failure α) (Sheet.Answer α)) :
    (inspect sheet answer).answer = answer ⟨n, tableau.reduce⟩ ∧
      (inspect sheet answer).sheet = ⟨n, tableau.reduce⟩ := by
  rcases shows with rfl | rfl
  · simp only [inspect, Sheet.ensureReduced, unreduced, Bool.false_eq_true,
      if_false, and_self]
  · exact ⟨rfl, rfl⟩

/-- A block that can be read is a start, and the answer is the solution from
there. -/
theorem perform_solve (workbook : Workbook α) {tableau : Tableau α n}
    (unreduced : tableau.reduced = false) {sheet : Sheet α}
    (shows : sheet = ⟨n, tableau⟩ ∨ sheet = ⟨n, tableau.reduce⟩)
    {block : Option (Block α)} {start : Vector α n}
    (starts : Sheet.start ⟨n, tableau⟩ block = .ok start) :
    (workbook.perform sheet (.solve block)).answer =
        .ok (.point (tableau.reduce.solve start).toList) ∧
      (workbook.perform sheet (.solve block)).sheet = ⟨n, tableau.reduce⟩ := by
  have startsReduced :
    Sheet.start ⟨n, tableau.reduce⟩ block = .ok start := starts
  have solved : (Sheet.solve ⟨n, tableau.reduce⟩ block).map Sheet.Answer.point =
      .ok (.point (tableau.reduce.solve start).toList) := by
    rw [Sheet.solve, startsReduced]
    rfl
  rcases inspect_reduced unreduced shows fun reduced =>
    (reduced.solve block).map .point with
    ⟨answered, left⟩
  exact ⟨answered.trans solved, left⟩

end Workbook

end LiveLinear
