import LiveLinear.Echelon
import Mathlib.Data.List.Perm.Basic

namespace LiveLinear

/-! # The course of an elimination

Elimination told as the decision taken at each column: either no active row can
serve as a pivot, or one of them is placed and the column is cleared from the
others. Nothing here depends on the arithmetic. -/

theorem bringToFront_perm (first : β) (rest : List β) (index : Nat) :
    ((bringToFront first rest index).1 ::
      (bringToFront first rest index).2).Perm (first :: rest) := by
  cases index with
  | zero => exact List.Perm.refl _
  | succ index =>
      cases found : rest[index]? with
      | none => simp [bringToFront, found]
      | some chosen =>
          rcases List.getElem?_eq_some_iff.mp found with ⟨within, isChosen⟩
          simp only [bringToFront, found]
          rw [← isChosen]
          have exchanged := List.set_perm_cons_eraseIdx within first
          have original := List.getElem_cons_eraseIdx_perm within
          have swapped : (rest[index] :: first :: rest.eraseIdx index).Perm
              (first :: rest[index] :: rest.eraseIdx index) :=
            List.Perm.swap _ _ _
          exact (exchanged.cons _).trans (swapped.trans (original.cons _))

namespace Echelon

variable {α : Type u} {n : Nat} [Scalar α]

theorem choosePivot_perm (column : Fin n) (first : Equation α n)
    (rest : List (Equation α n)) :
    ((choosePivot column first rest).1 ::
      (choosePivot column first rest).2).Perm (first :: rest) :=
  bringToFront_perm _ _ _

def Unpivoted (tolerance : α) (state : Echelon α n) (column : Fin n) : Prop :=
  ∀ first rest, state.active = first :: rest →
    Scalar.negligible tolerance
      ((choosePivot column first rest).1.coefficient column) = true

theorem step_of_unpivoted {tolerance : α} {state : Echelon α n} {column : Fin n}
    (unpivoted : Unpivoted tolerance state column) :
    step tolerance state column = state := by
  rcases state with ⟨placed, active⟩
  cases active with
  | nil => rfl
  | cons first rest =>
      have negligible := unpivoted first rest rfl
      simp only [step, negligible, if_true]

theorem step_of_significant {tolerance : α} {placed : List (Equation α n)}
    {first : Equation α n} {rest : List (Equation α n)} {column : Fin n}
    (significant : Scalar.negligible tolerance
      ((choosePivot column first rest).1.coefficient column) = false) :
    step tolerance ⟨placed, first :: rest⟩ column =
      ⟨placed ++ [(choosePivot column first rest).1.scale column],
        (choosePivot column first rest).2.map
          (Equation.eliminate (choosePivot column first rest).1 column)⟩ := by
  simp only [step, significant, Bool.false_eq_true, if_false]

/-- How elimination goes over `columns` from one state to another, and which of
the columns get a pivot on the way. -/
inductive Course (tolerance : α) :
    List (Fin n) → Echelon α n → List (Fin n) → Echelon α n → Prop
  | done (state) : Course tolerance [] state [] state
  | skip {column columns state pivots final}
      (unpivoted : Unpivoted tolerance state column)
      (later : Course tolerance columns state pivots final) :
      Course tolerance (column :: columns) state pivots final
  | place {column columns placed first rest pivot others pivots final}
      (chosen : choosePivot column first rest = (pivot, others))
      (significant :
        Scalar.negligible tolerance (pivot.coefficient column) = false)
      (later : Course tolerance columns
        ⟨placed ++ [pivot.scale column],
          others.map (Equation.eliminate pivot column)⟩
        pivots final) :
      Course tolerance (column :: columns) ⟨placed, first :: rest⟩
        (column :: pivots) final

/-- Stepping through the columns takes a course. -/
theorem exists_course (tolerance : α) (columns : List (Fin n))
    (state : Echelon α n) :
    ∃ pivots, Course tolerance columns state pivots
      (columns.foldl (step tolerance) state) := by
  induction columns generalizing state with
  | nil => exact ⟨[], Course.done state⟩
  | cons column columns induction =>
      rw [List.foldl_cons]
      rcases induction (step tolerance state column) with ⟨pivots, later⟩
      by_cases unpivoted : Unpivoted tolerance state column
      · rw [step_of_unpivoted unpivoted] at later ⊢
        exact ⟨pivots, Course.skip unpivoted later⟩
      · rcases state with ⟨placed, active⟩
        cases active with
        | nil => exact absurd (fun _ _ absent => by cases absent) unpivoted
        | cons first rest =>
            have significant : Scalar.negligible tolerance
                ((choosePivot column first rest).1.coefficient column) =
                  false := by
              apply Bool.eq_false_iff.mpr
              intro negligible
              apply unpivoted
              intro _ _ equal
              cases equal
              exact negligible
            rw [step_of_significant significant] at later ⊢
            exact ⟨column :: pivots, Course.place rfl significant later⟩

theorem Course.pivots_sublist {tolerance : α} {columns pivots : List (Fin n)}
    {state final : Echelon α n}
    (course : Course tolerance columns state pivots final) :
    pivots.Sublist columns := by
  induction course with
  | done => exact List.Sublist.refl _
  | skip _ _ induction => exact induction.cons _
  | place _ _ _ induction => exact induction.cons_cons _

theorem Course.placed_prefix {tolerance : α} {columns pivots : List (Fin n)}
    {state final : Echelon α n}
    (course : Course tolerance columns state pivots final) :
    state.placed <+: final.placed := by
  induction course with
  | done => exact List.prefix_refl _
  | skip _ _ induction => exact induction
  | place _ _ _ induction => exact (List.prefix_append _ _).trans induction

end Echelon

end LiveLinear
