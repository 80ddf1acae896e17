import Mathlib.Data.Set.Piecewise
import Mathlib.Logic.Relation
import LiveLinear.Proofs.Solver.Assignment
import LiveLinear.Proofs.Solver.Rearranging
import LiveLinear.Proofs.Solver.Rewriting

namespace LiveLinear

/-! # Connected variables

Constraints link the variables on which they have coefficients other than zero.
With exact arithmetic and tolerance zero, an edit of satisfied constraints moves
only variables that links lead to from where it acts. A solve reduces all
constraints in one tableau, and nothing here takes that apart: values that are
new in one part of the system and old in the rest solve the constraints too, and
there is one solution only with the free variables as they were. -/

/-- The coefficient of the variable is not zero. -/
def Constraint.Involves (constraint : Constraint ℚ) (id : VariableId) : Prop :=
  (constraint.terms.get? id).getD 0 ≠ 0

namespace Constraint

variable {constraint : Constraint ℚ}

/-- Only the values of the variables that are involved matter. -/
theorem holdsAt_congr (nodup : constraint.terms.keys.Nodup)
    {left right : VariableId → ℚ}
    (agree : ∀ id, constraint.Involves id → left id = right id) :
    constraint.HoldsAt left ↔ constraint.HoldsAt right := by
  have terms : (constraint.terms.entries.map fun term => term.2 * left term.1) =
      constraint.terms.entries.map fun term => term.2 * right term.1 := by
    apply List.map_congr_left
    rintro ⟨id, coefficient⟩ member
    have found := Table.get?_of_mem_entries nodup member
    by_cases isZero : coefficient = 0
    · rw [isZero, zero_mul, zero_mul]
    · have involved : constraint.Involves id := by
        rw [Involves, found]
        exact isZero
      rw [agree id involved]
  rw [HoldsAt, HoldsAt, terms]

theorem eq_of_involves_pinning {id other : VariableId} {value : ℚ}
    (involves : (pinning id value).Involves other) : other = id := by
  by_contra different
  apply involves
  rw [pinning, Table.get?_put_of_ne different]
  rfl

end Constraint

namespace Solver

variable {solver before middle after : Solver ℚ} {id other : VariableId}

def Linked (solver : Solver ℚ) (id other : VariableId) : Prop :=
  ∃ constraint ∈ solver.constraints.values, constraint.Involves id ∧
    constraint.Involves other

/-- Links lead from one variable to the other. -/
def Connected (solver : Solver ℚ) : VariableId → VariableId → Prop :=
  Relation.ReflTransGen solver.Linked

def Reaches (solver : Solver ℚ) (sources : VariableId → Prop)
    (id : VariableId) : Prop :=
  ∃ source, sources source ∧ solver.Connected source id

section Reaching

variable {sources : VariableId → Prop} {constraint : Constraint ℚ}

theorem reaches_self (isSource : sources id) : solver.Reaches sources id :=
  ⟨id, isSource, .refl⟩

theorem Reaches.through (reaches : solver.Reaches sources id)
    (member : constraint ∈ solver.constraints.values)
    (involves : constraint.Involves id)
    (involvesOther : constraint.Involves other) :
    solver.Reaches sources other := by
  rcases reaches with ⟨source, isSource, connected⟩
  exact ⟨source, isSource,
    connected.tail ⟨constraint, member, involves, involvesOther⟩⟩

end Reaching

/-! ## Moving within a part of the variables -/

/-- The variables are the same, and only those in `region` may have another
value. -/
structure MovesWithin (before after : Solver ℚ) (region : VariableId → Prop) :
    Prop where
  keys : after.unknowns.keys = before.unknowns.keys
  values : ∀ id, ¬region id → after.valueOf id = before.valueOf id

namespace MovesWithin

variable {region wider : VariableId → Prop}

theorem of_unknowns (same : after.unknowns = before.unknowns) :
    before.MovesWithin after region := by
  refine ⟨congrArg Table.keys same, fun id _ => ?_⟩
  rw [valueOf, valueOf, same]

theorem trans (left : before.MovesWithin middle region)
    (right : middle.MovesWithin after region) :
    before.MovesWithin after region :=
  ⟨right.keys.trans left.keys,
    fun id outside => (right.values id outside).trans (left.values id outside)⟩

theorem mono (moves : before.MovesWithin after region)
    (included : ∀ id, region id → wider id) :
    before.MovesWithin after wider :=
  ⟨moves.keys, fun id outside => moves.values id (mt (included id) outside)⟩

end MovesWithin

section Solving

variable {sources : VariableId → Prop}

open Classical in
/-- Values that are new where something is reached, and old elsewhere, solve the
constraints if the new ones do and what is not reached holds already. -/
theorem Coherent.solvedBy_piecewise (coherent : solver.Coherent)
    {values : VariableId → ℚ} (solved : solver.SolvedBy 1 values)
    (holds : ∀ constraint ∈ solver.constraints.values,
      (∀ id, constraint.Involves id → solver.Reaches sources id) ∨
        constraint.HoldsAt solver.valueOf) :
    solver.SolvedBy 1
      ({id | solver.Reaches sources id}.piecewise values solver.valueOf) := by
  rw [solvedBy_one_iff] at solved ⊢
  intro constraint member
  have nodup := (coherent.constraintsOver constraint member).nodup
  by_cases touched : ∃ id, constraint.Involves id ∧ solver.Reaches sources id
  · rcases touched with ⟨first, involvesFirst, reached⟩
    refine (Constraint.holdsAt_congr nodup fun id involves => ?_).mpr
      (solved constraint member)
    exact Set.piecewise_eq_of_mem _ _ _
      (reached.through member involvesFirst involves)
  · have untouched : ∀ id, constraint.Involves id →
        ¬solver.Reaches sources id :=
      fun id involves reached => touched ⟨id, involves, reached⟩
    -- A constraint that is reached as a whole involves nothing then, and holds
    -- at all values.
    have old : constraint.HoldsAt solver.valueOf := by
      rcases holds constraint member with whole | old
      · refine (Constraint.holdsAt_congr nodup fun id involves => ?_).mpr
          (solved constraint member)
        exact absurd (whole id involves) (untouched id involves)
      · exact old
    refine (Constraint.holdsAt_congr nodup fun id involves => ?_).mpr old
    exact Set.piecewise_eq_of_notMem _ _ _ (untouched id involves)

/-- A solve moves only variables that are reached from some sources, if the
constraints hold that are not among what is reached. -/
theorem Writes.movesWithin {moved : List VariableId}
    (writes : solver.Writes (.ok moved) after)
    (idle : solver.dispatching = false) (coherent : solver.Coherent)
    (exactly : solver.settings.Exact)
    (holds : ∀ constraint ∈ solver.constraints.values,
      (∀ id, constraint.Involves id → solver.Reaches sources id) ∨
        constraint.HoldsAt solver.valueOf) :
    solver.MovesWithin after (solver.Reaches sources) := by
  classical
  have solvable : solver.Solvable := by
    by_contra unsolvable
    cases (writes.of_unsolvable idle coherent exactly unsolvable).1
  rcases exists_assemble exactly.tolerance with ⟨tableau, assembled, isZero⟩
  rcases writes.solved idle coherent assembled isZero solvable with
    ⟨_, _, solved, keeps⟩
  have agree : ∀ id ∈ solver.freeIds tableau.reduce, after.valueOf id =
      {id | solver.Reaches sources id}.piecewise after.valueOf solver.valueOf
      id := by
    intro id free
    by_cases reached : id ∈ {id | solver.Reaches sources id}
    · exact (Set.piecewise_eq_of_mem _ _ _ reached).symm
    · exact (keeps id free).trans
        (Set.piecewise_eq_of_notMem _ _ _ reached).symm
  have same := coherent.eq_of_agree assembled isZero solved
    (coherent.solvedBy_piecewise solved holds) agree
  refine ⟨writes.keys_eq, fun id unreached => ?_⟩
  by_cases live : id ∈ solver.unknowns.keys
  · exact (same id live).trans (Set.piecewise_eq_of_notMem _ _ _ unreached)
  · have absent := Table.get?_eq_none_iff.mpr live
    have absentAfter : after.unknowns.get? id = none := by
      rw [Table.get?_eq_none_iff, writes.keys_eq]
      exact live
    rw [valueOf, valueOf, absent, absentAfter]

end Solving

/-! ## Holding a variable -/

section Holding

variable {former : Variable ℚ} {value : ℚ}

theorem MovesWithin.holdAt (solver : Solver ℚ) (id : VariableId) (value : ℚ) :
    solver.MovesWithin (solver.holdAt id value) (id = ·) := by
  refine ⟨keys_holdAt solver id value, fun other different => ?_⟩
  rw [Solver.holdAt, valueOf_pin, valueOf_release, valueOf, storeValue,
    modifyVariable, Table.get?_modify, if_neg (Ne.symm different), valueOf]

theorem MovesWithin.letGo (solver : Solver ℚ) (id : VariableId)
    (former : Variable ℚ) (moved : List VariableId)
    {region : VariableId → Prop} :
    solver.MovesWithin (solver.letGo id former (.ok moved)) region := by
  refine ⟨keys_letGo_ok solver id former moved, fun other _ => ?_⟩
  dsimp only [Solver.letGo]
  split
  · rfl
  · exact valueOf_release solver id other

variable (coherent : solver.Coherent)
  (found : solver.unknowns.get? id = some former)
include coherent found

theorem mem_constraints_holdAt {constraint : Constraint ℚ}
    (member : constraint ∈ (solver.holdAt id value).constraints.values) :
    constraint ∈ solver.constraints.values ∨
    constraint = .pinning id value := by
  rw [holdAt_eq coherent found,
    Table.values_put_of_not_mem (fresh_apart coherent), List.mem_append,
    List.mem_singleton] at member
  exact member.imp_left fun old => values_apart_subset solver id old

theorem connected_of_holdAt {first second : VariableId}
    (connected : (solver.holdAt id value).Connected first second) :
    solver.Connected first second := by
  induction connected with
  | refl => exact .refl
  | tail _ linked induction =>
      rcases linked with ⟨constraint, member, involves, involvesNext⟩
      rcases mem_constraints_holdAt coherent found member with old | rfl
      · exact induction.tail ⟨constraint, old, involves, involvesNext⟩
      · rw [Constraint.eq_of_involves_pinning involvesNext,
          ← Constraint.eq_of_involves_pinning involves]
        exact induction

/-- Holding a variable at another value touches only constraints that involve
it. -/
theorem Satisfied.reaches_or_holdsAt (satisfied : solver.Satisfied) :
    ∀ constraint ∈ (solver.holdAt id value).constraints.values,
      (∀ other, constraint.Involves other →
        (solver.holdAt id value).Reaches (id = ·) other) ∨
      constraint.HoldsAt (solver.holdAt id value).valueOf := by
  intro constraint member
  have reached : (solver.holdAt id value).Reaches (id = ·) id :=
    reaches_self rfl
  rcases mem_constraints_holdAt coherent found member with old | rfl
  · by_cases involvesIt : constraint.Involves id
    · exact .inl fun other involves =>
        reached.through member involvesIt involves
    · refine .inr
        ((Constraint.holdsAt_congr
          (coherent.constraintsOver constraint old).nodup fun other involves =>
          ?_).mpr (residual_eq_zero_iff.mp (satisfied constraint old)))
      apply (MovesWithin.holdAt solver id value).values
      rintro rfl
      exact involvesIt involves
  · refine .inl fun other involves => ?_
    rw [Constraint.eq_of_involves_pinning involves]
    exact reached

end Holding

end Solver

/-- A value that is taken moves only variables that are connected to its own. -/
theorem Draft.Applies.movesWithin {before after : Draft ℚ} {id : VariableId}
    {value : ℚ} {moved : List VariableId}
    (applies : before.Applies id value (.ok moved) after)
    (prompt : before.solver.Prompt) (satisfied : before.solver.Satisfied) :
    before.solver.MovesWithin after.solver (before.solver.Connected id) := by
  generalize isResult : Except.ok moved = result at applies
  cases applies with
  | absent _ | noNews _ _ _ => exact .of_unknowns rfl
  | unread _ _ => cases isResult
  | @held former _ outcome middle found _ _ written =>
      cases outcome with
      | error failure => cases isResult
      | ok others =>
          have held := prompt.holdAt id value
          have writes := Edit.writes_of_writeIfAuto written held.auto
          have solved := writes.movesWithin held.idle held.coherent held.exactly
            (satisfied.reaches_or_holdsAt prompt.coherent found)
          have holding := Solver.MovesWithin.holdAt before.solver id value
          refine (holding.mono ?_).trans ((solved.mono ?_).trans
            (.letGo middle.solver id former others))
          · rintro other rfl
            exact .refl
          · rintro other ⟨source, rfl, connected⟩
            exact Solver.connected_of_holdAt prompt.coherent found connected

/-! ## Editing a constraint -/

namespace Solver

variable {before middle after : Solver ℚ} {id : ConstraintId}
  {moved : List VariableId}

/-- A solve after a constraint has been edited moves only variables that are
connected to one of those that the constraint involves now. -/
theorem Rewrites.exists_movesWithin (rewrites : before.Rewrites middle id)
    (coherent : middle.Coherent) (prompt : before.Prompt)
    (satisfied : before.Satisfied) (writes : middle.Writes (.ok moved) after) :
    ∃ constraint, after.constraints.get? id = some constraint ∧
      before.MovesWithin after (after.Reaches constraint.Involves) := by
  have start : before.MovesWithin middle fun _ => False :=
    .of_unknowns rewrites.unknowns
  have idle : middle.dispatching = false :=
    rewrites.dispatching.trans prompt.idle
  have exactly : middle.settings.Exact := by
    rw [rewrites.settings]
    exact prompt.exactly
  rcases rewrites.present with ⟨constraint, found⟩
  have holds : ∀ another ∈ middle.constraints.values,
      (∀ involved, another.Involves involved →
        middle.Reaches constraint.Involves involved) ∨
      another.HoldsAt middle.valueOf := by
    intro another member
    rcases Table.mem_values_iff.mp member with ⟨held, entry⟩
    have isHeld := Table.get?_of_mem_entries coherent.constraintsNodup entry
    by_cases isEdited : held = id
    · rw [isEdited, found] at isHeld
      cases isHeld
      exact .inl fun involved involves => reaches_self involves
    · rw [rewrites.others held isEdited] at isHeld
      have old :=
        residual_eq_zero_iff.mp
          (satisfied another (Table.mem_values_of_get? isHeld))
      have values : middle.valueOf = before.valueOf :=
        funext fun other => start.values other not_false
      rw [values]
      exact .inr old
  have solved := writes.movesWithin idle coherent exactly holds
  have constraints : after.constraints = middle.constraints :=
    writes.constraints
  have reaches : after.Reaches = middle.Reaches := by
    unfold Reaches Connected Linked
    rw [constraints]
  rw [constraints, reaches]
  exact ⟨constraint, found,
    (start.mono fun _ impossible => impossible.elim).trans solved⟩

end Solver

end LiveLinear
