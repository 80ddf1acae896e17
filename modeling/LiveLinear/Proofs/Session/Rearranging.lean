import LiveLinear.Proofs.Session.Accuracy
import LiveLinear.Proofs.Solver.Rearranging

namespace LiveLinear

/-! # Order and scale of constraints

With exact arithmetic and tolerance zero, what sheets and solvers answer about
their system, and the values that a solve writes, depend neither on the order of
the equations nor on the numbers by which they are multiplied. -/

namespace Edit

variable {α : Type} [Scalar α] (before : Draft α)
  {tableau : Tableau α before.solver.unknowns.size}
  (assembled : before.solver.assemble = .ok tableau)

include assembled

theorem yields_isOverConstrained :
    ∃ draft,
      isOverConstrained.Yields before (.ok tableau.reduce.isOverConstrained)
        draft := by
  rcases exists_reduction before assembled with ⟨middle, made⟩
  refine ⟨middle, ?_⟩
  rw [isOverConstrained, yields_current_bind, yields_bind_ok]
  exact ⟨tableau.reduce, middle, made, yields_pure.mpr ⟨rfl, rfl⟩⟩

theorem yields_isUnderConstrained :
    ∃ draft,
      isUnderConstrained.Yields before (.ok tableau.reduce.isUnderConstrained)
        draft := by
  rcases exists_reduction before assembled with ⟨middle, made⟩
  refine ⟨middle, ?_⟩
  rw [isUnderConstrained, yields_current_bind, yields_bind_ok]
  exact ⟨tableau.reduce, middle, made, yields_pure.mpr ⟨rfl, rfl⟩⟩

end Edit

namespace Session

/-- A solver of the world gives this answer. -/
def Answers [Scalar α] (world : World α) (id : SolverId) (query : SolverQuery)
    (reply : Reply α) : Prop :=
  ∃ after, (Action.askSolver id query).Yields world (.ok reply) after

def Leaves [Scalar α] (world : World α) (id : SolverId) (after : Solver α) :
    Prop :=
  ∃ moved written,
    (Action.edit id Edit.writeSolution).Yields world (.ok moved) written ∧
    written.solvers[id]? = some after

section Answers

variable {α : Type} [Scalar α] {world : World α} {id : SolverId}
  {solver : Solver α} (found : world.solvers[id]? = some solver)
  {tableau : Tableau α solver.unknowns.size}
  (assembled : solver.assemble = .ok tableau)

include found assembled

theorem answers_isOverConstrained :
    Answers world id .isOverConstrained
      (.truth tableau.reduce.isOverConstrained) := by
  rcases Edit.yields_isOverConstrained ⟨solver, []⟩ assembled with
    ⟨draft, answered⟩
  exact ⟨_,
    Action.yields_bind.mpr
    (.inr ⟨_, _, Action.edit_of_yields found answered,
      Action.yields_pure.mpr ⟨rfl, rfl⟩⟩)⟩

theorem answers_isUnderConstrained :
    Answers world id .isUnderConstrained
      (.truth tableau.reduce.isUnderConstrained) := by
  rcases Edit.yields_isUnderConstrained ⟨solver, []⟩ assembled with
    ⟨draft, answered⟩
  exact ⟨_,
    Action.yields_bind.mpr
    (.inr ⟨_, _, Action.edit_of_yields found answered,
      Action.yields_pure.mpr ⟨rfl, rfl⟩⟩)⟩

theorem answers_freeVariables :
    Answers world id .freeVariables
      (.variableIds (solver.freeIds tableau.reduce)) := by
  rcases Edit.yields_freeVariables ⟨solver, []⟩ assembled with ⟨draft, answered⟩
  exact ⟨_,
    Action.yields_bind.mpr
    (.inr ⟨_, _, Action.edit_of_yields found answered,
      Action.yields_pure.mpr ⟨rfl, rfl⟩⟩)⟩

end Answers

theorem exists_written [Scalar α] {world : World α} {id : SolverId}
    {solver : Solver α} (found : world.solvers[id]? = some solver) :
    ∃ result after, solver.Writes result after ∧
      ∀ moved, result = .ok moved → Leaves world id after := by
  have yields := Edit.yields_run Edit.writeSolution (⟨solver, []⟩ : Draft α)
  refine ⟨_, _, (Edit.writeSolution_cases yields).1, fun moved isResult => ?_⟩
  rw [isResult] at yields
  exact ⟨moved, _, Action.edit_of_yields found yields,
    World.getElem?_adopt_self _ found⟩

/-- Two solvers that read their constraints at tolerance zero, and whose
constraints differ in their order and by factors. Coherent they are at every
moment of a session (`Activity.RunsWith.coheres`). -/
structure Compared (world other : World ℚ) (id otherId : SolverId)
    (solver another : Solver ℚ) :
    Prop where
  found : world.solvers[id]? = some solver
  otherFound : other.solvers[otherId]? = some another
  coherent : solver.Coherent
  otherCoherent : another.Coherent
  isZero : solver.settings.tolerance = some 0
  otherIsZero : another.settings.tolerance = some 0
  alike : solver.Alike another

/-- What the two solvers answer, and what a solve outside hooks writes. -/
structure Agree (world other : World ℚ) (id otherId : SolverId)
    (solver another : Solver ℚ) :
    Prop where
  isOverConstrained : ∃ isOver,
    Answers world id .isOverConstrained (.truth isOver) ∧
    Answers other otherId .isOverConstrained (.truth isOver) ∧
    (isOver = false → solver.dispatching = false → another.dispatching = false →
      ∃ after otherAfter, Leaves world id after ∧
        Leaves other otherId otherAfter ∧
        after.unknowns.keys = solver.unknowns.keys ∧
        otherAfter.unknowns.keys = solver.unknowns.keys ∧
        ∀ id ∈ solver.unknowns.keys, otherAfter.valueOf id = after.valueOf id)
  isUnderConstrained : ∃ isUnder,
    Answers world id .isUnderConstrained (.truth isUnder) ∧
    Answers other otherId .isUnderConstrained (.truth isUnder)
  freeVariables : ∃ free, Answers world id .freeVariables (.variableIds free) ∧
    Answers other otherId .freeVariables (.variableIds free)
  rank : ∃ tableau otherTableau, solver.assemble = .ok tableau ∧
    another.assemble = .ok otherTableau ∧
    tableau.reduce.rank = otherTableau.reduce.rank

theorem Compared.agree {world other : World ℚ} {id otherId : SolverId}
    {solver another : Solver ℚ}
    (compared : Compared world other id otherId solver another) :
    Agree world other id otherId solver another := by
  rcases compared with
    ⟨found, otherFound, coherent, otherCoherent, isZero, otherIsZero, alike⟩
  rcases Solver.exists_assemble isZero with ⟨tableau, assembled, zero⟩
  rcases Solver.exists_assemble otherIsZero with
    ⟨otherTableau, otherAssembled, otherZero⟩
  have isOver :=
    alike.isOverConstrained_eq coherent otherCoherent assembled otherAssembled
      zero otherZero
  have isUnder :=
    alike.isUnderConstrained_eq coherent otherCoherent assembled otherAssembled
      zero otherZero
  have free :=
    alike.freeIds_eq coherent otherCoherent assembled otherAssembled zero
      otherZero
  constructor
  · refine ⟨_, answers_isOverConstrained found assembled,
      isOver ▸ answers_isOverConstrained otherFound otherAssembled, ?_⟩
    intro consistent idle otherIdle
    rcases exists_written found with ⟨result, after, writes, leaves⟩
    rcases exists_written otherFound with
      ⟨otherResult, otherAfter, otherWrites, otherLeaves⟩
    rcases alike.written coherent otherCoherent assembled otherAssembled zero
      otherZero consistent idle otherIdle writes otherWrites with
      ⟨⟨moved, isResult⟩, ⟨otherMoved, isOther⟩, keys, otherKeys, values⟩
    exact ⟨after, otherAfter, leaves moved isResult,
      otherLeaves otherMoved isOther, keys, otherKeys, values⟩
  · exact ⟨_, answers_isUnderConstrained found assembled,
      isUnder ▸ answers_isUnderConstrained otherFound otherAssembled⟩
  · exact ⟨_, answers_freeVariables found assembled,
      free ▸ answers_freeVariables otherFound otherAssembled⟩
  · exact ⟨tableau, otherTableau, assembled, otherAssembled,
      alike.rank_eq coherent otherCoherent assembled otherAssembled zero
      otherZero⟩

/-- Rearranged and multiplied equations have the same diagnostics and, without a
contradiction, the same solution from the same start. Solvers that differ in
this way only answer the same about their system and, without a contradiction,
write the same values. -/
theorem rearranged_agree :
    (∀ (n : Nat) (equations others : List (Equation ℚ n)),
      Rearranged Equation.Multiplied equations others →
        ∃ tableau other, Tableau.make equations (some 0) = .ok tableau ∧
          Tableau.make others (some 0) = .ok other ∧
          ∀ workbook sheet another, Workbook.Shows tableau sheet →
            Workbook.Shows other another →
            Workbook.Agree workbook sheet another) ∧
      ∀ world other id otherId solver another,
        Compared world other id otherId solver another →
          Agree world other id otherId solver another := by
  constructor
  · intro n equations others rearranged
    refine ⟨⟨equations, 0, false⟩, ⟨others, 0, false⟩, Tableau.make_exact _,
      Tableau.make_exact _, ?_⟩
    intro workbook sheet another shows otherShows
    exact Workbook.agree_of_sameSolutions workbook rfl rfl rfl rfl
      rearranged.sameSolutions shows otherShows
  · intro world other id otherId solver another compared
    exact compared.agree

theorem multiplied_of_entries {constraint multiple : Constraint ℚ} {factor : ℚ}
    (nonzero : factor ≠ 0) (sum : multiple.sum = factor * constraint.sum)
    (entries : multiple.terms = constraint.terms.map (factor * ·)) :
    constraint.Multiplied multiple := by
  refine ⟨factor, nonzero, sum, fun id => ?_⟩
  rw [entries, Table.get?_map]
  cases constraint.terms.get? id <;> simp

/-- A solver over three variables to which constraints are added, without
solving. -/
def systemWorld (constraints : List (List (String × ℚ) × ℚ)) : World ℚ :=
  ((play (.ofDepth 9 3) .empty
    ([.operation (.newSolver "s" false true (.literal (some 0)) 10),
      .operation (.addVariable "s" "x" none (.literal (some 5))),
      .operation (.addVariable "s" "y" none (.literal (some 1))),
      .operation (.addVariable "s" "z" none (.literal (some 2)))] ++
      constraints.map fun (terms, sum) =>
        .operation (.addConstraint "s" none
          (terms.map fun (label, coefficient) =>
            (.label label, .literal (some coefficient)))
          (.literal (some sum))))).getLast?.map Step.world).getD .empty

/-- Three constraints, of which the last repeats the first. -/
def plainWorld : World ℚ :=
  systemWorld [([("x", 1), ("y", 2)], 4), ([("y", 1), ("z", 1)], 3),
    ([("x", 2), ("y", 4)], 8)]

/-- The same constraints from the last to the first, each multiplied. -/
def scaledWorld : World ℚ :=
  systemWorld
    [([("x", -4), ("y", -8)], -16), ([("y", 3), ("z", 3)], 9),
      ([("x", 1 / 2), ("y", 1)], 2)]

theorem compared_scaledWorld :
    ∃ solver another, Compared plainWorld scaledWorld 0 0 solver another ∧
      solver.dispatching = false ∧ another.dispatching = false := by
  have isThere : plainWorld.solvers[0]?.isSome = true := by decide +kernel
  have isOther : scaledWorld.solvers[0]?.isSome = true := by decide +kernel
  have suited : ∀ solver ∈ plainWorld.solvers[0]?,
      ∀ another ∈ scaledWorld.solvers[0]?, solver.settings.tolerance = some 0 ∧
        another.settings.tolerance = some 0 ∧ solver.dispatching = false ∧
        another.dispatching = false ∧
        another.unknowns.keys = solver.unknowns.keys ∧
        ∀ id ∈ solver.unknowns.keys,
        another.valueOf id = solver.valueOf id := by
    decide +kernel
  have paired : ∀ solver ∈ plainWorld.solvers[0]?,
      ∀ another ∈ scaledWorld.solvers[0]?,
        List.Forall₂ (fun constraint multiple : Constraint ℚ =>
          ∃ factor ∈ [1 / 2, 3, -2], factor ≠ 0 ∧
            multiple.sum = factor * constraint.sum ∧
            multiple.terms.entries =
              (constraint.terms.map (factor * ·)).entries)
        solver.constraints.values another.constraints.values.reverse := by
    decide +kernel
  rcases Option.isSome_iff_exists.mp isThere with ⟨solver, found⟩
  rcases Option.isSome_iff_exists.mp isOther with ⟨another, otherFound⟩
  rcases suited solver found another otherFound with
    ⟨isZero, otherIsZero, idle, otherIdle, keys, values⟩
  have sound : (Engine.ofDepth 9 3 : Engine ℚ).Sound := Engine.ofDepth_sound 9 3
  have multiplied := (paired solver found another otherFound).imp
    fun constraint multiple ⟨factor, _, nonzero, sum, entries⟩ =>
      multiplied_of_entries nonzero sum (congrArg Table.mk entries)
  refine ⟨solver, another, ?_, idle, otherIdle⟩
  exact
    { found, otherFound, isZero, otherIsZero
      coherent := (Reached.of_last _ _).coherent sound 0 solver found
      otherCoherent := (Reached.of_last _ _).coherent sound 0 another otherFound
      alike := ⟨keys, values, _, multiplied, List.reverse_perm _⟩ }

theorem rearranged_halves :
    Rearranged Equation.Multiplied [⟨#v[1, 2], 3⟩, ⟨#v[4, 6], 8⟩]
      [⟨#v[2, 3], 4⟩, (⟨#v[1, 2], 3⟩ : Equation ℚ 2)] := by
  have first :
      Equation.Multiplied ⟨#v[1, 2], 3⟩ (⟨#v[1, 2], 3⟩ : Equation ℚ 2) :=
    ⟨1, by decide +kernel⟩
  have second :
      Equation.Multiplied ⟨#v[4, 6], 8⟩ (⟨#v[2, 3], 4⟩ : Equation ℚ 2) :=
    ⟨1 / 2, by decide +kernel⟩
  exact ⟨_, .cons first (.cons second .nil), .swap _ _ _⟩

theorem rearranged_agree_scaledWorld :
    (∃ tableau other,
      Tableau.make [⟨#v[1, 2], 3⟩, ⟨#v[4, 6], 8⟩] (some 0) = .ok tableau ∧
        Tableau.make [⟨#v[2, 3], 4⟩, (⟨#v[1, 2], 3⟩ : Equation ℚ 2)] (some 0) =
          .ok other ∧ Workbook.Agree [] ⟨2, tableau⟩ ⟨2, other.reduce⟩) ∧
      ∃ solver another, Compared plainWorld scaledWorld 0 0 solver another ∧
        solver.dispatching = false ∧ another.dispatching = false ∧
        Agree plainWorld scaledWorld 0 0 solver another := by
  constructor
  · rcases rearranged_agree.1 2 _ _ rearranged_halves with
      ⟨tableau, other, made, otherMade, agree⟩
    exact ⟨tableau, other, made, otherMade, agree [] _ _ (.inl rfl) (.inr rfl)⟩
  · rcases compared_scaledWorld with
      ⟨solver, another, compared, idle, otherIdle⟩
    exact ⟨solver, another, compared, idle, otherIdle,
      rearranged_agree.2 _ _ _ _ _ _ compared⟩

end Session

end LiveLinear
