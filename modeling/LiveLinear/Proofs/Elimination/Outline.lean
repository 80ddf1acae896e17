import LiveLinear.Proofs.Scalar
import LiveLinear.Proofs.Elimination.Course
import LiveLinear.Tableau.Basic

namespace LiveLinear

/-! # The outline of the reduced rows

What elimination leaves behind at a tolerance below one, in any arithmetic whose
comparisons are those of an order: placed rows with leads that go strictly to
the right, and void rows. No entry is computed for this, so it holds however the
entries are rounded; and since the leads go to the right, resolving the rows a
second time finds the values of the first. -/

variable {α : Type u} {n : Nat} [Scalar α]

/-! ## The choice of a pivot -/

section Choice

variable [OrderedScalar α]

/-- The scan ends at the place it started from or at the place of a later value.
A bound of the value it ends at is a bound of all that it has seen, unordered
values included: one of them would have been held. -/
theorem largestFrom_cases (best : α) (place next : Nat) (values : List α) :
    (largestFrom best place next values = place ∧
        ∀ bound, best ≤ bound → ∀ value ∈ values, value ≤ bound) ∨
      ∃ index, ∃ within : index < values.length,
        largestFrom best place next values = next + index ∧
          ∀ bound, values[index] ≤ bound →
            best ≤ bound ∧ ∀ value ∈ values, value ≤ bound := by
  induction values generalizing best place next with
  | nil => exact .inl ⟨rfl, by simp⟩
  | cons head tail induction =>
      cases taken : Scalar.surpasses head best with
      | true =>
          simp only [largestFrom, taken, if_true]
          rcases induction head next (next + 1) with
            ⟨ended, bounds⟩ | ⟨index, within, ended, bounds⟩
          · refine .inr ⟨0, by simp, by simpa using ended, ?_⟩
            intro bound bounded
            have headBounded : head ≤ bound := bounded
            exact ⟨Scalar.le_of_surpasses taken headBounded,
              List.forall_mem_cons.mpr ⟨headBounded, bounds bound headBounded⟩⟩
          · refine .inr
              ⟨index + 1, by simpa using within, by rw [ended]; omega, ?_⟩
            intro bound bounded
            rcases bounds bound (by simpa using bounded) with
              ⟨headBounded, tailBounded⟩
            exact ⟨Scalar.le_of_surpasses taken headBounded,
              List.forall_mem_cons.mpr ⟨headBounded, tailBounded⟩⟩
      | false =>
          simp only [largestFrom, taken, Bool.false_eq_true, if_false]
          rcases induction best place (next + 1) with
            ⟨ended, bounds⟩ | ⟨index, within, ended, bounds⟩
          · refine .inl ⟨ended, ?_⟩
            intro bound bounded
            have headBounded : head ≤ bound :=
              Scalar.le_of_not_surpasses taken bounded
            exact List.forall_mem_cons.mpr ⟨headBounded, bounds bound bounded⟩
          · refine .inr
              ⟨index + 1, by simpa using within, by rw [ended]; omega, ?_⟩
            intro bound bounded
            rcases bounds bound (by simpa using bounded) with
              ⟨bestBounded, tailBounded⟩
            have headBounded : head ≤ bound :=
              Scalar.le_of_not_surpasses taken bestBounded
            exact ⟨bestBounded,
              List.forall_mem_cons.mpr ⟨headBounded, tailBounded⟩⟩

theorem le_of_largestIndex_le (first : α) (rest : List α) :
    ∃ within : largestIndex first rest < (first :: rest).length,
      ∀ bound, (first :: rest)[largestIndex first rest] ≤ bound →
        ∀ value ∈ first :: rest, value ≤ bound := by
  rcases largestFrom_cases first 0 1 rest with
    ⟨ended, bounds⟩ | ⟨index, within, ended, bounds⟩
  · have atFirst : largestIndex first rest = 0 := ended
    refine ⟨by simp [atFirst], ?_⟩
    intro bound bounded
    have firstBounded : first ≤ bound := by simpa [atFirst] using bounded
    exact List.forall_mem_cons.mpr ⟨firstBounded, bounds bound firstBounded⟩
  · have atIndex : largestIndex first rest = index + 1 := by
      rw [largestIndex, ended]
      omega
    refine ⟨by simpa [atIndex] using within, ?_⟩
    intro bound bounded
    exact List.forall_mem_cons.mpr
      (bounds bound (by simpa [atIndex] using bounded))

end Choice

theorem bringToFront_fst (first : β) (rest : List β) (index : Nat)
    (within : index < (first :: rest).length) :
    (bringToFront first rest index).1 = (first :: rest)[index] := by
  cases index with
  | zero => rfl
  | succ index =>
      have withinRest : index < rest.length := by simpa using within
      simp [bringToFront, List.getElem?_eq_getElem withinRest]

namespace Echelon

variable [OrderedScalar α]

/-- What bounds the entry of the chosen row bounds the entry of every row. -/
theorem magnitude_le_of_choosePivot (column : Fin n) (first : Equation α n)
    (rest : List (Equation α n)) {bound : α}
    (bounded :
      Scalar.magnitude ((choosePivot column first rest).1.coefficient column) ≤
        bound) :
    ∀ equation ∈ first :: rest,
      Scalar.magnitude (equation.coefficient column) ≤ bound := by
  intro equation member
  let size := fun equation : Equation α n =>
    Scalar.magnitude (equation.coefficient column)
  rcases le_of_largestIndex_le (size first) (rest.map size) with
    ⟨within, bounds⟩
  have withinRows :
      largestIndex (size first) (rest.map size) < (first :: rest).length := by
    simpa using within
  have chosen : (choosePivot column first rest).1 =
      (first :: rest)[largestIndex (size first) (rest.map size)] :=
    bringToFront_fst first rest _ withinRows
  rw [chosen] at bounded
  refine bounds bound ?_ (size equation)
    (List.mem_map_of_mem (f := size) member)
  simpa only [← List.map_cons, List.getElem_map] using bounded

theorem Unpivoted.negligible {tolerance : α} {state : Echelon α n}
    {column : Fin n} (unpivoted : Unpivoted tolerance state column)
    {equation : Equation α n} (member : equation ∈ state.active) :
    Scalar.negligible tolerance (equation.coefficient column) = true := by
  cases active : state.active with
  | nil => simp [active] at member
  | cons first rest =>
      have chosen := of_decide_eq_true (unpivoted first rest active)
      exact decide_eq_true
        (magnitude_le_of_choosePivot column first rest chosen equation
          (active ▸ member))

end Echelon

/-! ## Leads -/

namespace Equation

theorem coefficient_eliminate_of_lt (pivot equation : Equation α n)
    {column index : Fin n} (before : index < column) :
    (pivot.eliminate column equation).coefficient index = equation.coefficient
      index := by
  simp [eliminate, coefficient, before]

@[simp] theorem coefficient_eliminate_self (pivot equation : Equation α n)
    (column : Fin n) :
    (pivot.eliminate column equation).coefficient column = 0 := by
  simp [eliminate, coefficient]

theorem coefficient_scale_of_lt (equation : Equation α n) {column index : Fin n}
    (before : index < column) :
    (equation.scale column).coefficient index = equation.coefficient index := by
  simp [scale, coefficient, before]

@[simp] theorem coefficient_scale_self (equation : Equation α n)
    (column : Fin n) :
    (equation.scale column).coefficient column = 1 := by
  simp [scale, coefficient]

theorem isVoid_iff_negligible {tolerance : α} {equation : Equation α n} :
    equation.isVoid tolerance = true ↔
      ∀ column,
        Scalar.negligible tolerance (equation.coefficient column) = true := by
  simp only [isVoid, List.all_eq_true]
  constructor
  · intro small column
    exact small _ (by simp [coefficient])
  · intro small value member
    rcases List.mem_iff_getElem.mp member with ⟨index, within, isValue⟩
    have atIndex := small ⟨index, by simpa using within⟩
    simpa [coefficient, ← isValue] using atIndex

theorem lead?_of_isVoid {tolerance : α} {equation : Equation α n}
    (isVoid : equation.isVoid tolerance = true) :
    equation.lead? tolerance = none := by
  simp [lead?, isVoid]

theorem leads_append_of_isVoid {tolerance : α} (rows : List (Equation α n))
    {voids : List (Equation α n)}
    (isVoid : ∀ equation ∈ voids, equation.isVoid tolerance = true) :
    leads tolerance (rows ++ voids) = leads tolerance rows := by
  have none : voids.filterMap (lead? tolerance) = [] := by
    apply List.filterMap_eq_nil_iff.mpr
    intro equation member
    exact lead?_of_isVoid (isVoid equation member)
  rw [leads, List.filterMap_append, none, List.append_nil, leads]

structure Heads (tolerance : α) (lead : Fin n) (equation : Equation α n) :
    Prop where
  one : equation.coefficient lead = 1
  negligible : ∀ column < lead,
    Scalar.negligible tolerance (equation.coefficient column) = true

namespace Heads

variable [OrderedScalar α] {tolerance : α} {lead : Fin n}
  {equation : Equation α n}

theorem not_isVoid (heads : Heads tolerance lead equation)
    (small : tolerance < 1) :
    equation.isVoid tolerance = false := by
  apply Bool.eq_false_iff.mpr
  intro isVoid
  have negligible := isVoid_iff_negligible.mp isVoid lead
  rw [heads.one, Scalar.not_negligible_one small] at negligible
  cases negligible

theorem lead?_eq (heads : Heads tolerance lead equation)
    (small : tolerance < 1) :
    equation.lead? tolerance = some lead := by
  have found : (List.finRange n).find? (fun column =>
      Scalar.significant tolerance (equation.coefficient column)) =
        some lead := by
    rw [List.find?_eq_some_iff_getElem]
    refine ⟨?_, lead.val, by simp, by simp, ?_⟩
    · rw [heads.one]
      exact Scalar.significant_one small
    · intro index before
      rw [Bool.not_eq_true']
      apply Scalar.not_significant_of_negligible
      exact heads.negligible _ (by simpa [Fin.lt_def] using before)
  simp [lead?, heads.not_isVoid small, found]

end Heads

theorem leads_of_heads [OrderedScalar α] {tolerance : α} {pivots : List (Fin n)}
    {rows : List (Equation α n)} (small : tolerance < 1)
    (heads : List.Forall₂ (Heads tolerance) pivots rows) :
    leads tolerance rows = pivots := by
  induction heads with
  | nil => rfl
  | cons head _ induction =>
      rw [leads] at induction
      rw [leads, List.filterMap_cons, head.lead?_eq small, induction]

end Equation

namespace Echelon

/-! ## Columns that have been passed -/

theorem columns_of_drop {column : Fin n} {columns : List (Fin n)} {count : Nat}
    (remaining : column :: columns = (List.finRange n).drop count) :
    column.val = count ∧ columns = (List.finRange n).drop (count + 1) := by
  have within : count < (List.finRange n).length := by
    by_contra past
    rw [List.drop_eq_nil_of_le (Nat.le_of_not_lt past)] at remaining
    cases remaining
  rw [List.drop_eq_getElem_cons within] at remaining
  rcases List.cons.inj remaining with ⟨isColumn, later⟩
  refine ⟨?_, later⟩
  rw [isColumn, List.getElem_finRange]
  rfl

theorem le_of_drop_eq_nil {count : Nat}
    (remaining : [] = (List.finRange n).drop count) :
    n ≤ count := by
  have short := List.drop_eq_nil_iff.mp remaining.symm
  simpa using short

def Blank (tolerance : α) (count : Nat) (rows : List (Equation α n)) : Prop :=
  ∀ equation ∈ rows, ∀ column : Fin n, column.val < count →
    Scalar.negligible tolerance (equation.coefficient column) = true

namespace Blank

variable {tolerance : α} {column : Fin n}

theorem zero (tolerance : α) (rows : List (Equation α n)) :
    Blank tolerance 0 rows := by
  intro _ _ column before
  omega

theorem isVoid {count : Nat} {rows : List (Equation α n)}
    (blank : Blank tolerance count rows) (past : n ≤ count) : ∀ equation ∈ rows,
      equation.isVoid tolerance = true := by
  intro equation member
  apply Equation.isVoid_iff_negligible.mpr
  intro column
  exact blank equation member column (by omega)

theorem skip [OrderedScalar α] {state : Echelon α n}
    (blank : Blank tolerance column.val state.active)
    (unpivoted : Unpivoted tolerance state column) :
    Blank tolerance (column.val + 1) state.active := by
  intro equation member other before
  rcases Nat.lt_succ_iff_lt_or_eq.mp before with earlier | equal
  · exact blank equation member other earlier
  · rw [Fin.ext equal]
    exact unpivoted.negligible member

section Chosen

variable {first pivot : Equation α n} {rest others : List (Equation α n)}

theorem of_chosen {count : Nat} (blank : Blank tolerance count (first :: rest))
    (chosen : choosePivot column first rest = (pivot, others)) :
    Blank tolerance count (pivot :: others) := by
  have permutation := choosePivot_perm column first rest
  rw [chosen] at permutation
  intro equation member
  exact blank equation (permutation.mem_iff.mp member)

theorem heads_scale (blank : Blank tolerance column.val (pivot :: others)) :
    Equation.Heads tolerance column (pivot.scale column) := by
  constructor
  · exact Equation.coefficient_scale_self pivot column
  · intro other before
    rw [Equation.coefficient_scale_of_lt _ before]
    exact blank pivot List.mem_cons_self other before

theorem eliminate [OrderedScalar α] (nonnegative : 0 ≤ tolerance)
    (blank : Blank tolerance column.val (pivot :: others)) :
    Blank tolerance (column.val + 1)
      (others.map (Equation.eliminate pivot column)) := by
  intro equation member other before
  rcases List.mem_map.mp member with ⟨source, sourceMember, rfl⟩
  rcases Nat.lt_succ_iff_lt_or_eq.mp before with earlier | equal
  · rw [Equation.coefficient_eliminate_of_lt _ _ (Fin.lt_def.mpr earlier)]
    exact blank source (List.mem_cons_of_mem _ sourceMember) other earlier
  · rw [Fin.ext equal, Equation.coefficient_eliminate_self]
    exact Scalar.negligible_zero nonnegative

end Chosen

end Blank

namespace Course

variable {tolerance : α} {columns pivots : List (Fin n)}
  {state final : Echelon α n}

theorem pivots_pairwise (course : Course tolerance columns state pivots final)
    {count : Nat} (remaining : columns = (List.finRange n).drop count) :
    pivots.Pairwise (· < ·) := by
  subst remaining
  have ordered : (List.finRange n).Pairwise (· < ·) :=
    List.pairwise_lt_finRange n
  exact (ordered.sublist (List.drop_sublist _ _)).sublist course.pivots_sublist

theorem le_of_mem_pivots (course : Course tolerance columns state pivots final)
    {count : Nat} (remaining : columns = (List.finRange n).drop count)
    {pivot : Fin n} (member : pivot ∈ pivots) : count ≤ pivot.val := by
  subst remaining
  have dropped := course.pivots_sublist.subset member
  rcases List.mem_drop_iff_getElem.mp dropped with ⟨index, within, isPivot⟩
  rw [← isPivot, List.getElem_finRange]
  simp

/-- The rows that a course adds are headed by its pivots, and the rows that stay
active are void. -/
theorem outline [OrderedScalar α]
    (course : Course tolerance columns state pivots final)
    (nonnegative : 0 ≤ tolerance) {count : Nat}
    (remaining : columns = (List.finRange n).drop count)
    (blank : Blank tolerance count state.active) :
    (∃ rows, final.placed = state.placed ++ rows ∧
        List.Forall₂ (Equation.Heads tolerance) pivots rows) ∧
      ∀ equation ∈ final.active, equation.isVoid tolerance = true := by
  induction course generalizing count with
  | done state =>
      exact ⟨⟨[], (List.append_nil _).symm, .nil⟩,
        blank.isVoid (le_of_drop_eq_nil remaining)⟩
  | @skip column columns state pivots final unpivoted later induction =>
      rcases columns_of_drop remaining with ⟨rfl, remainingLater⟩
      exact induction remainingLater (blank.skip unpivoted)
  | @place column columns placed first rest pivot others pivots final chosen
      significant later induction =>
      rcases columns_of_drop remaining with ⟨rfl, remainingLater⟩
      have blankBoth := blank.of_chosen chosen
      rcases induction remainingLater (blankBoth.eliminate nonnegative) with
        ⟨⟨rows, isPlaced, heads⟩, isVoid⟩
      refine ⟨⟨pivot.scale column :: rows, ?_,
        .cons blankBoth.heads_scale heads⟩, isVoid⟩
      rw [isPlaced, List.append_assoc, List.singleton_append]

end Course

/-- The course over all columns, and the outline at its end. -/
theorem exists_outline [OrderedScalar α] {tolerance : α}
    (nonnegative : 0 ≤ tolerance) (equations : List (Equation α n)) :
    ∃ pivots,
      Course tolerance (List.finRange n) ⟨[], equations⟩ pivots
          (ofEquations tolerance equations) ∧
        pivots.Pairwise (· < ·) ∧
        List.Forall₂ (Equation.Heads tolerance) pivots
          (ofEquations tolerance equations).placed ∧
        ∀ equation ∈ (ofEquations tolerance equations).active,
          equation.isVoid tolerance = true := by
  rcases exists_course tolerance (List.finRange n) ⟨[], equations⟩ with
    ⟨pivots, course⟩
  have remaining : List.finRange n = (List.finRange n).drop 0 := rfl
  rcases course.outline nonnegative remaining (Blank.zero _ _) with
    ⟨⟨rows, isPlaced, heads⟩, isVoid⟩
  rw [List.nil_append] at isPlaced
  exact ⟨pivots, course, course.pivots_pairwise remaining, isPlaced ▸ heads,
    isVoid⟩

theorem leads_ofEquations_pairwise [OrderedScalar α] {tolerance : α}
    (nonnegative : 0 ≤ tolerance) (small : tolerance < 1)
    (equations : List (Equation α n)) :
    (Equation.leads tolerance (ofEquations tolerance equations).toList).Pairwise
      (· < ·) := by
  rcases exists_outline nonnegative equations with
    ⟨pivots, -, ordered, heads, isVoid⟩
  rw [toList, Equation.leads_append_of_isVoid _ isVoid,
    Equation.leads_of_heads small heads]
  exact ordered

end Echelon

/-! ## Resolving -/

namespace Equation

variable {tolerance : α}

/-- Resolving for an unknown looks only at the unknowns after it. -/
theorem resolve_set_of_le (equation : Equation α n) {lead column : Fin n}
    (reached : column ≤ lead) (value : α) (point : Vector α n) :
    equation.resolve lead (point.set column.val value column.isLt) =
      equation.resolve lead point := by
  have step : ∀ (total : α) (other : Fin n),
      (if lead < other then
          total + equation.coefficient other *
            (point.set column.val value column.isLt)[other]
        else total) =
      if lead < other then total + equation.coefficient other * point[other]
      else total := by
    intro total other
    by_cases later : lead < other
    · have different : column.val ≠ other.val := by omega
      have kept :
          (point.set column.val value column.isLt)[other] = point[other] :=
        Vector.getElem_set_ne column.isLt other.isLt different
      rw [kept]
    · rw [if_neg later, if_neg later]
  simp only [resolve, after, step]

theorem backSubstitute_cons_of_lead {lead : Fin n} {row : Equation α n}
    (leads : row.lead? tolerance = some lead) (rows : List (Equation α n))
    (start : Vector α n) :
    backSubstitute tolerance (row :: rows) start =
      (backSubstitute tolerance rows start).set lead.val
        (row.resolve lead (backSubstitute tolerance rows start)) lead.isLt := by
  rw [backSubstitute, List.foldr_cons, leads]
  rfl

theorem backSubstitute_cons_of_none {row : Equation α n}
    (none : row.lead? tolerance = none) (rows : List (Equation α n))
    (start : Vector α n) :
    backSubstitute tolerance (row :: rows) start = backSubstitute tolerance rows
      start := by
  rw [backSubstitute, List.foldr_cons, none]
  rfl

theorem backSubstitute_append_of_isVoid (rows : List (Equation α n))
    {voids : List (Equation α n)}
    (isVoid : ∀ equation ∈ voids, equation.isVoid tolerance = true)
    (start : Vector α n) :
    backSubstitute tolerance (rows ++ voids) start = backSubstitute tolerance
      rows start := by
  have unchanged : backSubstitute tolerance voids start = start := by
    induction voids with
    | nil => rfl
    | cons equation voids induction =>
        rw [backSubstitute_cons_of_none
          (lead?_of_isVoid (isVoid equation (by simp)))]
        exact induction fun other member => isVoid other (by simp [member])
  rw [backSubstitute, List.foldr_append]
  exact congrArg (fun point => backSubstitute tolerance rows point) unchanged

theorem leads_cons_of_lead {lead : Fin n} {row : Equation α n}
    (isLead : row.lead? tolerance = some lead) (rows : List (Equation α n)) :
    leads tolerance (row :: rows) = lead :: leads tolerance rows :=
  List.filterMap_cons_some isLead

theorem leads_cons_of_none {row : Equation α n}
    (none : row.lead? tolerance = none) (rows : List (Equation α n)) :
    leads tolerance (row :: rows) = leads tolerance rows :=
  List.filterMap_cons_none none

theorem get_set {β : Type v} (point : Vector β n) (place : Fin n) (value : β)
    (column : Fin n) :
    (point.set place.val value place.isLt).get column =
      if place = column then value else point.get column := by
  simp only [Fin.ext_iff]
  exact Vector.getElem_set place.isLt column.isLt

/-- Unknowns that lead no row keep their value. -/
theorem get_backSubstitute_of_not_mem (rows : List (Equation α n))
    (start : Vector α n) {column : Fin n}
    (free : column ∉ leads tolerance rows) :
    (backSubstitute tolerance rows start).get column = start.get column := by
  induction rows with
  | nil => rfl
  | cons row rows induction =>
      cases isLead : row.lead? tolerance with
      | none =>
          rw [leads_cons_of_none isLead] at free
          rw [backSubstitute_cons_of_none isLead]
          exact induction free
      | some lead =>
          rw [leads_cons_of_lead isLead] at free
          have different : column ≠ lead := List.ne_of_not_mem_cons free
          rw [backSubstitute_cons_of_lead isLead, get_set,
            if_neg different.symm]
          exact induction (List.not_mem_of_not_mem_cons free)

/-- A value before all leads is passed over and stays. -/
theorem backSubstitute_set_of_lt (rows : List (Equation α n)) {column : Fin n}
    (before : ∀ lead ∈ leads tolerance rows, column < lead) (value : α)
    (start : Vector α n) :
    backSubstitute tolerance rows (start.set column.val value column.isLt) =
      (backSubstitute tolerance rows start).set column.val value
        column.isLt := by
  induction rows with
  | nil => rfl
  | cons row rows induction =>
      cases isLead : row.lead? tolerance with
      | none =>
          rw [leads_cons_of_none isLead] at before
          rw [backSubstitute_cons_of_none isLead,
            backSubstitute_cons_of_none isLead]
          exact induction before
      | some lead =>
          rw [leads_cons_of_lead isLead] at before
          rcases List.forall_mem_cons.mp before with ⟨beforeLead, beforeLater⟩
          rw [backSubstitute_cons_of_lead isLead,
            backSubstitute_cons_of_lead isLead, induction beforeLater,
            resolve_set_of_le _ (Fin.le_of_lt beforeLead)]
          exact Vector.set_comm _ _ (Nat.ne_of_lt beforeLead)

/-- Where leads go strictly to the right, each resolved value depends only on
unknowns that lead no row and on values resolved before: resolving again finds
it again. -/
theorem backSubstitute_backSubstitute {rows : List (Equation α n)}
    (ordered : (leads tolerance rows).Pairwise (· < ·)) (start : Vector α n) :
    backSubstitute tolerance rows (backSubstitute tolerance rows start) =
      backSubstitute tolerance rows start := by
  induction rows with
  | nil => rfl
  | cons row rows induction =>
      cases isLead : row.lead? tolerance with
      | none =>
          rw [leads_cons_of_none isLead] at ordered
          simp only [backSubstitute_cons_of_none isLead]
          exact induction ordered
      | some lead =>
          rw [leads_cons_of_lead isLead] at ordered
          rcases List.pairwise_cons.mp ordered with ⟨beforeLater, orderedLater⟩
          simp only [backSubstitute_cons_of_lead isLead]
          rw [backSubstitute_set_of_lt rows beforeLater, induction orderedLater,
            resolve_set_of_le _ (Fin.le_refl lead)]
          exact Vector.set_set _ lead.isLt

end Equation

namespace Tableau

theorem get_solve_of_not_mem (tableau : Tableau α n) (start : Vector α n)
    {column : Fin n} (free : column ∉ tableau.pivotColumns) :
    (tableau.solve start).get column = start.get column :=
  Equation.get_backSubstitute_of_not_mem tableau.equations start free

section Reduced

variable [OrderedScalar α] (tableau : Tableau α n)
  (nonnegative : 0 ≤ tableau.tolerance) (small : tableau.tolerance < 1)

include nonnegative small

theorem pivotColumns_reduce_pairwise :
    tableau.reduce.pivotColumns.Pairwise (· < ·) :=
  Echelon.leads_ofEquations_pairwise nonnegative small tableau.equations

theorem nodup_pivotColumns_reduce : tableau.reduce.pivotColumns.Nodup :=
  (tableau.pivotColumns_reduce_pairwise nonnegative small).imp Fin.ne_of_lt

theorem solve_reduce_solve_reduce (start : Vector α n) :
    tableau.reduce.solve (tableau.reduce.solve start) = tableau.reduce.solve
      start :=
  Equation.backSubstitute_backSubstitute
    (tableau.pivotColumns_reduce_pairwise nonnegative small) start

end Reduced

end Tableau

end LiveLinear
