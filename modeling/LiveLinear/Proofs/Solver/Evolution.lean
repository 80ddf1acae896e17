import Mathlib.Logic.Relation
import LiveLinear.Proofs.Solver.Holding

namespace LiveLinear

/-! # How solvers evolve

The changes that a solver goes through, one at a time, each with what may be
relied on when it is made. Every task is a sequence of them, however it ends. -/

variable {α : Type}

namespace Solver

def originOf (solver : Solver α) (id : ConstraintId) : Option Origin :=
  (solver.constraints.get? id).map Constraint.origin

structure SameContents (before after : Solver α) : Prop where
  unknowns : after.unknowns = before.unknowns
  constraints : after.constraints = before.constraints
  nextVariable : after.nextVariable = before.nextVariable
  nextConstraint : after.nextConstraint = before.nextConstraint

/-- One change. -/
inductive Changes : Solver α → Solver α → Prop
  | marked (same : SameContents before after) : Changes before after
  | insertVariable {solver : Solver α} (name : Option String) (value : α) :
      Changes solver (solver.insertVariable name value)
  /-- A variable gets another value or hook. -/
  | modifyVariable {solver : Solver α} (id : VariableId)
      (change : Variable α → Variable α)
      (sameLock : ∀ contents, (change contents).lock = contents.lock) :
      Changes solver (solver.modifyVariable id change)
  | eraseVariable {solver : Solver α} (id : VariableId) :
      Changes solver (solver.eraseVariable id)
  | insertConstraint {solver : Solver α} {constraint : Constraint α}
      (isOver : constraint.Over solver.unknowns.keys)
      (stated : constraint.origin = .stated) :
      Changes solver (solver.insertConstraint constraint)
  | modifyConstraint {solver : Solver α} (id : ConstraintId)
      (change : Constraint α → Constraint α)
      (keepsOver : ∀ constraint : Constraint α,
        constraint.Over solver.unknowns.keys →
        (change constraint).Over solver.unknowns.keys)
      (sameOrigin : ∀ constraint,
        (change constraint).origin = constraint.origin) :
      Changes solver (solver.modifyConstraint id change)
  /-- A constraint is taken back that nothing but itself refers to. -/
  | dropConstraint {solver : Solver α} {id : ConstraintId}
      (stated : solver.originOf id = some .stated) :
      Changes solver { solver with constraints := solver.constraints.erase id }
  | eraseConstraint {solver : Solver α} (id : ConstraintId) :
      Changes solver (solver.eraseConstraint id)
  | pin [Scalar α] {solver : Solver α} {id : VariableId}
      (unlocked : solver.lockOf id = none) :
      Changes solver (solver.pin id)
  | release {solver : Solver α} (id : VariableId) :
      Changes solver (solver.release id)
  | storePoint [Scalar α] {solver : Solver α}
      (target : Vector α solver.unknowns.size) :
      Changes solver (solver.storePoint target)

def Evolves : Solver α → Solver α → Prop :=
  Relation.ReflTransGen Changes

variable {solver before middle after : Solver α}

theorem Evolves.refl (solver : Solver α) : Evolves solver solver :=
  Relation.ReflTransGen.refl

theorem Evolves.trans (left : Evolves before middle)
    (right : Evolves middle after) :
    Evolves before after :=
  Relation.ReflTransGen.trans left right

theorem Changes.evolves (changes : Changes before after) :
    Evolves before after :=
  Relation.ReflTransGen.single changes

theorem SameContents.evolves (same : SameContents before after) :
    Evolves before after :=
  (Changes.marked same).evolves

theorem lockOf_release_self (solver : Solver α) (id : VariableId) :
    (solver.release id).lockOf id = none := by
  rcases found : solver.unknowns.get? id with _ | ⟨name, value, _ | held, hook⟩
  · rw [release, found, lockOf, found]
    rfl
  · rw [release, found, lockOf_of_get? found]
  · rw [release, found]
    exact lockOf_of_get? (get?_modifyVariable found _)

theorem Evolves.storeValue (solver : Solver α) (id : VariableId) (value : α) :
    Evolves solver (solver.storeValue id value) :=
  (Changes.modifyVariable id (fun contents => { contents with value }) fun _ =>
    rfl).evolves

theorem Evolves.repin [Scalar α] (solver : Solver α) (id : VariableId) :
    Evolves (solver.release id) ((solver.release id).pin id) :=
  (Changes.pin (lockOf_release_self solver id)).evolves

theorem Evolves.storeAndRelease (solver : Solver α) (id : VariableId)
    (value : α) :
    Evolves solver ((solver.storeValue id value).release id) :=
  (Evolves.storeValue solver id value).trans (Changes.release id).evolves

theorem Evolves.holdAt [Scalar α] (solver : Solver α) (id : VariableId)
    (value : α) :
    Evolves solver (solver.holdAt id value) :=
  (Evolves.storeAndRelease solver id value).trans (.repin _ id)

theorem Evolves.letGo [Scalar α] (solver : Solver α) (id : VariableId)
    (former : Variable α) (outcome : Except (Failure α) (List VariableId)) :
    Evolves solver (solver.letGo id former outcome) := by
  have cleaned : ∀ undone : Solver α, Evolves solver undone →
      Evolves solver (if former.lock.isSome then undone
        else undone.release id) := by
    intro undone undoing
    split
    · exact undoing
    · exact undoing.trans (Changes.release id).evolves
  apply cleaned
  split
  · have released := Evolves.storeAndRelease solver id former.value
    dsimp only
    split
    · exact released.trans (.repin _ id)
    · exact released
  · exact .refl solver

namespace Writes

variable [Scalar α] {result : Except (Failure α) (List VariableId)}

theorem evolves (writes : solver.Writes result after) :
    Evolves solver after := by
  cases writes with
  | deferred _ | unassembled _ _ | refused _ _ _ _ =>
      exact SameContents.evolves ⟨rfl, rfl, rfl, rfl⟩
  | written _ _ _ =>
      exact (Changes.storePoint _).evolves.trans
        (SameContents.evolves ⟨rfl, rfl, rfl, rfl⟩)

theorem constraints (writes : solver.Writes result after) :
    after.constraints = solver.constraints := by
  cases writes <;> rfl

end Writes

end Solver

def Draft.Evolves (before after : Draft α) : Prop :=
  before.solver.Evolves after.solver

theorem Draft.Evolves.lasting :
    Edit.Lasting (Draft.Evolves : Draft α → Draft α → Prop) :=
  ⟨fun _ => .refl _, fun _ _ _ left right => left.trans right⟩

end LiveLinear
