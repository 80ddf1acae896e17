import LiveLinear.Failure
import LiveLinear.Table
import LiveLinear.Tableau.Basic

namespace LiveLinear

/-! # Solvers

A solver owns variables and the linear constraints between them. This file holds
its contents, the changes that need no solving, and what can be read off it. -/

inductive Origin where
  /-- Asked for as a constraint. -/
  | stated
  /-- Made to hold one variable at its value. -/
  | pin
  deriving DecidableEq

structure Variable (α : Type u) where
  name : String
  value : α
  /-- The constraint that holds the variable at its value, if it is locked. -/
  lock : Option ConstraintId
  /-- Whom to call when the value has moved. -/
  hook : Option HookId

/-- The equation `Σ terms = sum`; terms stand in the order in which they
arrived. -/
structure Constraint (α : Type u) where
  terms : Table VariableId α
  sum : α
  origin : Origin

structure Settings (α : Type u) where
  /-- Whether each edit is followed by a solve. -/
  autoSolve : Bool
  /-- Whether contradictory constraints are an error; otherwise a maximal part
  of them is solved, with a warning. -/
  refusesContradiction : Bool
  /-- Magnitudes up to this count as zero. It may be missing, and then nothing
  can be compared with it. -/
  tolerance : Option α
  /-- How many deferred items are processed after one round of hooks. -/
  cascadeLimit : Int

structure Solver (α : Type u) where
  id : SolverId
  settings : Settings α
  unknowns : Table VariableId (Variable α)
  constraints : Table ConstraintId (Constraint α)
  nextVariable : Nat
  nextConstraint : Nat
  /-- The number in the next name made for a variable without one. -/
  nextName : Nat
  /-- Whether hooks of this solver are being called. -/
  dispatching : Bool
  /-- Whether deferred work is being processed. -/
  draining : Bool
  /-- Whether a hook has asked for a solve that is still to be done. -/
  resolvePending : Bool
  /-- Values set by hooks that are still to be applied, oldest first. -/
  deferred : List (VariableId × α)

def finite [Scalar α] (quantity : Quantity) : Option α → Except (Failure α) α
  | none => .error .numberMissing
  | some value =>
      if Scalar.isFinite value then .ok value
      else .error (.notFinite quantity value)

def Settings.toleranceFor (settings : Settings α) (comparison : Comparison) :
    Except (Failure α) α :=
  match settings.tolerance with
  | some tolerance => .ok tolerance
  | none => .error (.toleranceMissing comparison)

namespace Solver

variable {α : Type u}

def empty (id : SolverId) (settings : Settings α) : Solver α :=
  { id
    settings
    unknowns := ∅
    constraints := ∅
    nextVariable := 0
    nextConstraint := 0
    nextName := 0
    dispatching := false
    draining := false
    resolvePending := false
    deferred := [] }

/-! ## Handles -/

def checkVariable (solver : Solver α) : Argument → Except (Failure α) VariableId
  | .foreign value => .error (.notVariable value.kind)
  | .handle handle =>
      if handle.solver ≠ solver.id then .error (.foreignVariable handle.id)
      else if solver.unknowns.contains handle.id then .ok handle.id
      else .error (.variableDeleted handle.id)

def variableAt (solver : Solver α) (handle : VariableHandle) :
    Except (Failure α) (Variable α) :=
  if handle.solver ≠ solver.id then .error (.foreignVariable handle.id)
  else
    match solver.unknowns.get? handle.id with
    | some contents => .ok contents
    | none => .error (.variableDeleted handle.id)

def constraintAt (solver : Solver α) (handle : ConstraintHandle) :
    Except (Failure α) (Constraint α) :=
  if handle.solver ≠ solver.id then .error (.foreignConstraint handle.id)
  else
    match solver.constraints.get? handle.id with
    | some contents => .ok contents
    | none => .error (.constraintDeleted handle.id)

/-! ## Changes that need no solving -/

def setSettings (solver : Solver α) (change : Settings α → Settings α) :
    Solver α :=
  { solver with settings := change solver.settings }

def insertVariable (solver : Solver α) (name : Option String) (value : α) :
    Solver α :=
  { solver with
    unknowns := solver.unknowns.put solver.nextVariable
      { name := name.getD ("var" ++ toString solver.nextName)
        value
        lock := none
        hook := none }
    nextVariable := solver.nextVariable + 1
    nextName := if name.isNone then solver.nextName + 1 else solver.nextName }

def insertConstraint (solver : Solver α) (constraint : Constraint α) :
    Solver α :=
  { solver with
    constraints := solver.constraints.put solver.nextConstraint constraint
    nextConstraint := solver.nextConstraint + 1 }

def modifyVariable (solver : Solver α) (id : VariableId)
    (change : Variable α → Variable α) : Solver α :=
  { solver with unknowns := solver.unknowns.modify id change }

def modifyConstraint (solver : Solver α) (id : ConstraintId)
    (change : Constraint α → Constraint α) : Solver α :=
  { solver with constraints := solver.constraints.modify id change }

def storeValue (solver : Solver α) (id : VariableId) (value : α) : Solver α :=
  solver.modifyVariable id fun contents => { contents with value }

def setHook (solver : Solver α) (id : VariableId) (hook : Option HookId) :
    Solver α :=
  solver.modifyVariable id fun contents => { contents with hook }

/-- Hold a variable at its current value by a constraint of its own. -/
def pin [One α] (solver : Solver α) (id : VariableId) : Solver α :=
  match solver.unknowns.get? id with
  | none => solver
  | some contents =>
      let pinned := solver.insertConstraint
        { terms := Table.empty.put id 1
          sum := contents.value
          origin := .pin }
      pinned.modifyVariable id fun contents =>
        { contents with lock := some (solver.nextConstraint : Int) }

def release (solver : Solver α) (id : VariableId) : Solver α :=
  match solver.unknowns.get? id with
  | some { lock := some held, .. } =>
      { solver.modifyVariable id fun contents =>
          { contents with lock := none } with
        constraints := solver.constraints.erase held }
  | _ => solver

def eraseVariable (solver : Solver α) (id : VariableId) : Solver α :=
  let released := solver.release id
  { released with
    unknowns := released.unknowns.erase id
    constraints := released.constraints.map fun constraint =>
      { constraint with terms := constraint.terms.erase id } }

def eraseConstraint (solver : Solver α) (id : ConstraintId) : Solver α :=
  { solver with
    constraints := solver.constraints.erase id
    unknowns := solver.unknowns.map fun contents =>
      if contents.lock = some id then { contents with lock := none }
      else contents }

def dropDeferred (solver : Solver α) : Solver α :=
  { solver with deferred := [], resolvePending := false }

/-! ## Reading -/

variable [Scalar α]

def valueOf (solver : Solver α) (id : VariableId) : α :=
  ((solver.unknowns.get? id).map Variable.value).getD 0

/-- The left-hand side at the current values, added up in term order from
zero. -/
def evaluate (solver : Solver α) (constraint : Constraint α) : α :=
  constraint.terms.entries.foldl
    (fun total term => total + term.2 * solver.valueOf term.1)
    0

def residual (solver : Solver α) (constraint : Constraint α) : α :=
  solver.evaluate constraint - constraint.sum

def residuals (solver : Solver α) : List α :=
  solver.constraints.values.map solver.residual

def isSatisfied (solver : Solver α) (constraint : Constraint α) :
    Except (Failure α) Bool :=
  (solver.settings.toleranceFor .atMost).map fun tolerance =>
    Scalar.negligible tolerance (solver.residual constraint)

/-! ## The system of equations -/

/-- One column for each variable, in order; a variable without a term has
coefficient zero. -/
def equation (solver : Solver α) (constraint : Constraint α) :
    Equation α solver.unknowns.size :=
  { coefficients := Vector.ofFn fun column =>
      (constraint.terms.get? (solver.unknowns.entry column).1).getD 0
    sum := constraint.sum }

def equations (solver : Solver α) : List (Equation α solver.unknowns.size) :=
  solver.constraints.values.map solver.equation

def assemble (solver : Solver α) :
    Except (Failure α) (Tableau α solver.unknowns.size) :=
  Tableau.make solver.equations solver.settings.tolerance

def point (solver : Solver α) : Vector α solver.unknowns.size :=
  Vector.ofFn fun column => (solver.unknowns.entry column).2.value

/-- The variables that a move to `target` changes by more than the tolerance. -/
def moved (solver : Solver α) (tolerance : α)
    (target : Vector α solver.unknowns.size) : List VariableId :=
  (List.finRange solver.unknowns.size).filterMap fun column =>
    let entry := solver.unknowns.entry column
    if Scalar.significant tolerance (target[column] - entry.2.value) then
      some entry.1
    else none

def storePoint (solver : Solver α) (target : Vector α solver.unknowns.size) :
    Solver α :=
  { solver with
    unknowns := ⟨List.ofFn fun column =>
      let entry := solver.unknowns.entry column
      (entry.1, { entry.2 with value := target[column] })⟩ }

end Solver

end LiveLinear
