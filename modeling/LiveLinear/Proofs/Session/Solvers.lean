import LiveLinear.Proofs.Session.Activity

namespace LiveLinear

/-! # The solvers of a world

What holds of each solver in a world, and how the solvers of one world go on in
another. -/

namespace World

variable {α : Type} {world before middle after : World α}

def Each (world : World α) (property : SolverId → Solver α → Prop) : Prop :=
  ∀ id solver, world.solvers[id]? = some solver → property id solver

/-- Every solver goes on in a later world, related to what it was, and solvers
that have been made in between are as new ones should be. -/
structure Continues (relation : Solver α → Solver α → Prop)
    (new : Solver α → Prop) (before after : World α) : Prop where
  old (id : SolverId) (solver : Solver α)
    (found : before.solvers[id]? = some solver) :
    ∃ later, after.solvers[id]? = some later ∧ relation solver later
  new (id : SolverId) (later : Solver α)
    (found : after.solvers[id]? = some later)
    (missing : before.solvers[id]? = none) : new later

/-- What holds of one solver, which is there. -/
def At (world : World α) (id : SolverId) (property : Solver α → Prop) : Prop :=
  ∃ solver, world.solvers[id]? = some solver ∧ property solver

/-! ## Each solver -/

theorem getElem?_change (world : World α) (id other : SolverId)
    (change : Solver α → Solver α) :
    (world.change id change).solvers[other]? =
      world.solvers[other]?.map fun solver => if id = other then change solver
        else solver :=
  List.getElem?_modify ..

theorem getElem?_change_self {id : SolverId} {solver : Solver α}
    (change : Solver α → Solver α) (found : world.solvers[id]? = some solver) :
    (world.change id change).solvers[id]? = some (change solver) := by
  simp [getElem?_change, found]

theorem getElem?_change_of_ne {id other : SolverId}
    (change : Solver α → Solver α) (different : id ≠ other) :
    (world.change id change).solvers[other]? = world.solvers[other]? := by
  simp [getElem?_change, different]

theorem getElem?_adopt_self {id : SolverId} {solver : Solver α}
    (draft : Draft α) (found : world.solvers[id]? = some solver) :
    (world.adopt id draft).solvers[id]? = some draft.solver := by
  rcases List.getElem?_eq_some_iff.mp found with ⟨inRange, _⟩
  exact List.getElem?_set_self inRange

def annotate (world : World α) (id : SolverId) (notes : List (Note α)) :
    World α :=
  { world with history := notes.map (.noted id) ++ world.history }

theorem adopt_self {id : SolverId} {solver : Solver α}
    (found : world.solvers[id]? = some solver) (notes : List (Note α)) :
    world.adopt id ⟨solver, notes⟩ = world.annotate id notes := by
  rcases List.getElem?_eq_some_iff.mp found with ⟨within, rfl⟩
  rw [adopt, annotate, List.set_getElem_self]

theorem getElem?_adopt_of_ne {id other : SolverId} (draft : Draft α)
    (different : id ≠ other) :
    (world.adopt id draft).solvers[other]? = world.solvers[other]? :=
  List.getElem?_set_ne different

theorem getElem?_addSolver_of_some {settings : Settings α} {id : SolverId}
    {solver : Solver α} (found : world.solvers[id]? = some solver) :
    (world.addSolver settings).solvers[id]? = some solver := by
  rcases List.getElem?_eq_some_iff.mp found with ⟨inRange, _⟩
  exact (List.getElem?_append_left inRange).trans found

theorem getElem?_addSolver_cases {settings : Settings α} {id : SolverId}
    {solver : Solver α}
    (found : (world.addSolver settings).solvers[id]? = some solver) :
    world.solvers[id]? = some solver ∨ solver = .empty id settings := by
  unfold addSolver at found
  rcases Nat.lt_or_ge id world.solvers.length with inRange | beyond
  · rw [List.getElem?_append_left inRange] at found
    exact .inl found
  · rw [List.getElem?_append_right beyond] at found
    rcases List.getElem?_eq_some_iff.mp found with ⟨inRange, equal⟩
    have last : id = world.solvers.length :=
      Nat.le_antisymm
        (Nat.sub_eq_zero_iff_le.mp (Nat.lt_one_iff.mp inRange)) beyond
    rw [List.getElem_singleton, ← last] at equal
    exact .inr equal.symm

namespace Each

variable {property : SolverId → Solver α → Prop} {id : SolverId}

theorem of_like (each : before.Each property) (like : before.Like after) :
    after.Each property := by
  intro other solver found
  rw [like.solvers] at found
  exact each other solver found

theorem change {earlier : SolverId → Solver α → Prop}
    {change : Solver α → Solver α} (each : world.Each earlier)
    (others : ∀ other solver, id ≠ other → earlier other solver →
      property other solver)
    (self : ∀ solver, world.solvers[id]? = some solver → earlier id solver →
      property id (change solver)) :
    (world.change id change).Each property := by
  intro other solver found
  by_cases same : id = other
  · subst other
    rw [getElem?_change, Option.map_eq_some_iff] at found
    rcases found with ⟨former, found, rfl⟩
    rw [if_pos rfl]
    exact self former found (each id former found)
  · rw [getElem?_change_of_ne change same] at found
    exact others other solver same (each other solver found)

theorem adopt {earlier : SolverId → Solver α → Prop} {solver : Solver α}
    {draft : Draft α} (each : world.Each earlier)
    (found : world.solvers[id]? = some solver)
    (others : ∀ other solver, id ≠ other → earlier other solver →
      property other solver)
    (self : earlier id solver → property id draft.solver) :
    (world.adopt id draft).Each property := by
  intro other present isPresent
  by_cases same : id = other
  · subst other
    rw [getElem?_adopt_self draft found] at isPresent
    cases isPresent
    exact self (each id solver found)
  · rw [getElem?_adopt_of_ne draft same] at isPresent
    exact others other present same (each other present isPresent)

theorem addSolver {settings : Settings α} (each : world.Each property)
    (new : ∀ id, property id (.empty id settings)) :
    (world.addSolver settings).Each property := by
  intro id solver found
  rcases getElem?_addSolver_cases found with present | rfl
  · exact each id solver present
  · exact new id

end Each

namespace At

variable {property stronger : Solver α → Prop} {id : SolverId}

theorem of_like (one : before.At id property) (like : before.Like after) :
    after.At id property := by
  rcases one with ⟨solver, found, holds⟩
  rw [← like.solvers] at found
  exact ⟨solver, found, holds⟩

theorem holds {solver : Solver α} (one : world.At id property)
    (found : world.solvers[id]? = some solver) : property solver := by
  rcases one with ⟨same, isSame, holds⟩
  rw [found] at isSame
  cases isSame
  exact holds

theorem imp (one : world.At id stronger)
    (weaker : ∀ solver, stronger solver → property solver) :
    world.At id property := by
  rcases one with ⟨solver, found, holds⟩
  exact ⟨solver, found, weaker solver holds⟩

theorem and {other : Solver α → Prop} (left : world.At id property)
    (right : world.At id other) : world.At id fun solver => property solver ∧
    other solver := by
  rcases left with ⟨solver, found, holds⟩
  rcases right with ⟨same, foundSame, holdsToo⟩
  rw [found] at foundSame
  cases foundSame
  exact ⟨solver, found, holds, holdsToo⟩

theorem adopt {solver : Solver α} {draft : Draft α}
    (found : world.solvers[id]? = some solver) (holds : property draft.solver) :
    (world.adopt id draft).At id property :=
  ⟨draft.solver, getElem?_adopt_self draft found, holds⟩

theorem change {change : Solver α → Solver α} (one : world.At id stronger)
    (changed : ∀ solver, stronger solver → property (change solver)) :
    (world.change id change).At id property := by
  rcases one with ⟨solver, found, holds⟩
  exact ⟨change solver, getElem?_change_self change found, changed solver holds⟩

end At

/-! ## Solvers that go on -/

namespace Continues

variable {relation : Solver α → Solver α → Prop} {new : Solver α → Prop}
  {id : SolverId}

theorem of_same (reflexive : ∀ solver, relation solver solver)
    (same : after.solvers = before.solvers) :
    Continues relation new before after := by
  constructor
  · intro id solver found
    rw [← same] at found
    exact ⟨solver, found, reflexive solver⟩
  · intro id solver found missing
    rw [same, missing] at found
    cases found

theorem trans (transitive : ∀ first second third,
      relation first second → relation second third → relation first third)
    (carried : ∀ solver later, new solver → relation solver later → new later)
    (left : Continues relation new before middle)
    (right : Continues relation new middle after) :
    Continues relation new before after := by
  constructor
  · intro id solver found
    rcases left.old id solver found with ⟨between, foundBetween, first⟩
    rcases right.old id between foundBetween with ⟨later, foundLater, second⟩
    exact ⟨later, foundLater, transitive _ _ _ first second⟩
  · intro id later found missing
    cases between : middle.solvers[id]? with
    | none => exact right.new id later found between
    | some solver =>
        rcases right.old id solver between with ⟨same, foundSame, related⟩
        rw [found] at foundSame
        cases foundSame
        exact carried solver later (left.new id solver between missing) related

theorem change {change : Solver α → Solver α}
    (reflexive : ∀ solver, relation solver solver)
    (related : ∀ solver, world.solvers[id]? = some solver →
      relation solver (change solver)) :
    Continues relation new world (world.change id change) := by
  constructor
  · intro other solver found
    by_cases same : id = other
    · subst other
      exact ⟨change solver, getElem?_change_self change found,
        related solver found⟩
    · refine ⟨solver, ?_, reflexive solver⟩
      rw [getElem?_change_of_ne change same]
      exact found
  · intro other later found missing
    rw [getElem?_change, missing] at found
    cases found

/-- What happens between a change of a solver and the change back. -/
theorem around {start finish : Solver α → Solver α} {solver : Solver α}
    (found : world.solvers[id]? = some solver)
    (between : Continues relation new (world.change id start) after)
    (around : ∀ later, relation (start solver) later →
      relation solver (finish later)) :
    Continues relation new world (after.change id finish) := by
  constructor
  · intro other present isPresent
    by_cases same : id = other
    · subst other
      rw [found] at isPresent
      cases isPresent
      rcases between.old id _ (getElem?_change_self start found) with
        ⟨later, foundLater, related⟩
      exact ⟨finish later, getElem?_change_self finish foundLater,
        around later related⟩
    · rw [← getElem?_change_of_ne start same] at isPresent
      rcases between.old other present isPresent with
        ⟨later, foundLater, related⟩
      refine ⟨later, ?_, related⟩
      rw [getElem?_change_of_ne finish same]
      exact foundLater
  · intro other later foundLater missing
    by_cases same : id = other
    · subst other
      rw [found] at missing
      cases missing
    · rw [getElem?_change_of_ne finish same] at foundLater
      rw [← getElem?_change_of_ne start same] at missing
      exact between.new other later foundLater missing

theorem at_of_at {earlier later : Solver α → Prop}
    (continues : Continues relation new before after)
    (one : before.At id earlier)
    (carried : ∀ solver other, earlier solver → relation solver other →
      later other) :
    after.At id later := by
  rcases one with ⟨solver, found, holds⟩
  rcases continues.old id solver found with ⟨other, foundOther, related⟩
  exact ⟨other, foundOther, carried solver other holds related⟩

theorem each {earlier later : SolverId → Solver α → Prop}
    (continues : Continues relation new before after)
    (each : before.Each earlier)
    (carried : ∀ id solver other, earlier id solver → relation solver other →
      later id other) (fresh : ∀ id solver, new solver → later id solver) :
    after.Each later := by
  intro id solver found
  cases present : before.solvers[id]? with
  | none => exact fresh id solver (continues.new id solver found present)
  | some former =>
      rcases continues.old id former present with ⟨same, foundSame, related⟩
      rw [found] at foundSame
      cases foundSame
      exact carried id former solver (each id former present) related

theorem adopt {solver : Solver α} {draft : Draft α}
    (reflexive : ∀ solver, relation solver solver)
    (found : world.solvers[id]? = some solver)
    (related : relation solver draft.solver) :
    Continues relation new world (world.adopt id draft) := by
  constructor
  · intro other present isPresent
    by_cases same : id = other
    · subst other
      rw [found] at isPresent
      cases isPresent
      exact ⟨draft.solver, getElem?_adopt_self draft found, related⟩
    · refine ⟨present, ?_, reflexive present⟩
      rw [getElem?_adopt_of_ne draft same]
      exact isPresent
  · intro other later foundLater missing
    by_cases same : id = other
    · subst other
      rw [found] at missing
      cases missing
    · rw [getElem?_adopt_of_ne draft same, missing] at foundLater
      cases foundLater

theorem addSolver {settings : Settings α}
    (reflexive : ∀ solver, relation solver solver)
    (fresh : ∀ id, new (.empty id settings)) :
    Continues relation new world (world.addSolver settings) := by
  constructor
  · exact fun _ solver found =>
      ⟨solver, getElem?_addSolver_of_some found, reflexive solver⟩
  · intro id later found missing
    rcases getElem?_addSolver_cases found with present | rfl
    · rw [missing] at present
      cases present
    · exact fresh id

end Continues

end World

end LiveLinear
