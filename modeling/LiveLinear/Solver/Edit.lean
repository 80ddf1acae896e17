import LiveLinear.Solver.Basic

namespace LiveLinear

/-! # Edits

Operations on one solver that call no hooks. An edit may fail half-way; what it
has written by then stays, so an edit that must leave nothing behind takes its
own steps back. Edits that may move values return the variables whose hooks are
to be called, in order. -/

/-- A solver being edited, and the notes made so far, newest first. -/
structure Draft (α : Type u) where
  solver : Solver α
  notes : List (Note α)

abbrev Edit (α : Type u) := ExceptT (Failure α) (StateM (Draft α))

namespace Edit

variable {α β : Type}

def current : Edit α (Solver α) := do
  return (← get).solver

def update (change : Solver α → Solver α) : Edit α Unit :=
  modify fun draft => { draft with solver := change draft.solver }

def note (note : Note α) : Edit α Unit :=
  modify fun draft => { draft with notes := note :: draft.notes }

def check (condition : Solver α → Except (Failure α) β) : Edit α β := do
  match condition (← current) with
  | .ok value => return value
  | .error failure => throw failure

def outcome (edit : Edit α β) : Edit α (Except (Failure α) β) :=
  ExceptT.mk (edit.run >>= fun result => pure (.ok result))

def ofOutcome : Except (Failure α) β → Edit α β
  | .ok value => return value
  | .error failure => throw failure

def ensuring (edit : Edit α β) (cleanup : Solver α → Solver α) : Edit α β := do
  let result ← edit.outcome
  update cleanup
  ofOutcome result

def undoing (edit : Edit α β) (undo : Solver α → Solver α) : Edit α β := do
  let result ← edit.outcome
  if let .error .overConstrained := result then update undo
  ofOutcome result

/-! ## Solving -/

variable [Scalar α]

def reduction (solver : Solver α) :
    Edit α (Tableau α solver.unknowns.size) := do
  note (.assembled solver.constraints.size solver.unknowns.size)
  let tableau ← ofOutcome solver.assemble
  note tableau.reductionNote
  return tableau.reduce

/-- Solve and write every value. While hooks run the solve is put off and
nothing moves. Variables that the constraints leave free keep their value. -/
def writeSolution : Edit α (List VariableId) := do
  let solver ← current
  if solver.dispatching then
    update fun solver => { solver with resolvePending := true }
    note .solveDeferred
    return []
  update fun solver => { solver with resolvePending := false }
  let tableau ← reduction solver
  if tableau.isOverConstrained then
    if solver.settings.refusesContradiction then throw .overConstrained
    note .contradictionIgnored
  let target := tableau.solve solver.point
  let moved := solver.moved tableau.tolerance target
  update fun _ => { solver.storePoint target with resolvePending := false }
  note (.solved solver.unknowns.size moved.length)
  return moved

def writeIfAuto : Edit α (List VariableId) := do
  if (← current).settings.autoSolve then writeSolution
  else return []

def isOverConstrained : Edit α Bool := do
  let solver ← current
  return (← reduction solver).isOverConstrained

def isUnderConstrained : Edit α Bool := do
  let solver ← current
  return (← reduction solver).isUnderConstrained

def freeVariables : Edit α (List VariableId) := do
  let solver ← current
  let pivots := (← reduction solver).pivotColumns
  return (List.finRange solver.unknowns.size).filterMap fun column =>
    if pivots.contains column then none
    else some (solver.unknowns.entry column).1

/-! ## Variables -/

def addVariable (name : Option String) (value : Option α) :
    Edit α VariableId := do
  let value ← ofOutcome (finite .variableValue value)
  let id := (← current).nextVariable
  update fun solver => solver.insertVariable name value
  return id

/-- Give a variable a value. While its neighbours are solved for, the variable
is held at that value, unless the constraints forbid it: then it is as it was
before. A locked variable stays locked. Nothing happens if the variable is gone,
or if the value is no news. -/
def applyValue (id : VariableId) (value : α) : Edit α (List VariableId) := do
  let solver ← current
  match solver.unknowns.get? id with
  | none => return []
  | some former =>
      let tolerance ← ofOutcome (solver.settings.toleranceFor .atMost)
      if Scalar.negligible tolerance (value - former.value) then return []
      let locked := former.lock.isSome
      update fun solver => ((solver.storeValue id value).release id).pin id
      let undo := fun solver : Solver α =>
        let released := (solver.storeValue id former.value).release id
        if locked then released.pin id else released
      let cleanup := fun solver : Solver α =>
        if locked then solver else solver.release id
      let moved ← (writeIfAuto.undoing undo).ensuring cleanup
      return moved.filter (fun other => other ≠ id) ++ [id]

def setValue (handle : VariableHandle) (value : Option α) :
    Edit α (List VariableId) := do
  let id ← check fun solver => solver.checkVariable (.handle handle)
  let value ← ofOutcome (finite .variableValue value)
  if (← current).dispatching then
    update fun solver =>
      { solver with deferred := solver.deferred ++ [(id, value)] }
    note (.valueQueued id value)
    return []
  applyValue id value

def lock (handle : VariableHandle) : Edit α (List VariableId) := do
  let contents ← check fun solver => solver.variableAt handle
  if contents.lock.isSome then return []
  update fun solver => solver.pin handle.id
  writeIfAuto.undoing fun solver => solver.release handle.id

def unlock (handle : VariableHandle) : Edit α Unit := do
  let _ ← check fun solver => solver.variableAt handle
  update fun solver => solver.release handle.id

def deleteVariable (handle : VariableHandle) : Edit α Unit := do
  let _ ← check fun solver => solver.variableAt handle
  update fun solver => solver.eraseVariable handle.id

def observe (handle : VariableHandle) (hook : Option HookId) : Edit α Unit := do
  let _ ← check fun solver => solver.variableAt handle
  update fun solver => solver.setHook handle.id hook

def forget (id : VariableId) (hook : Option HookId) : Edit α Unit :=
  update fun solver =>
    match hook, (solver.unknowns.get? id).bind Variable.hook with
    | some mine, some present =>
        if mine = present then solver.setHook id none else solver
    | _, _ => solver

/-! ## Constraints -/

/-- Check the terms of a new constraint, in order: first the coefficient, then
the variable. -/
def checkTerms (solver : Solver α) (terms : List (Argument × Option α)) :
    Except (Failure α) (Table VariableId α) :=
  terms.foldlM
    (fun stored term => do
      let coefficient ← finite .coefficient term.2
      let id ← solver.checkVariable term.1
      return stored.put id coefficient)
    Table.empty

/-- Add a constraint. One that contradicts the others is not kept. -/
def addConstraint (terms : List (Argument × Option α)) (total : Option α) :
    Edit α (ConstraintId × List VariableId) := do
  let sum ← ofOutcome (finite .constraintSum total)
  let terms ← check fun solver => checkTerms solver terms
  let id : ConstraintId := (← current).nextConstraint
  update fun solver => solver.insertConstraint { terms, sum, origin := .stated }
  let moved ← writeIfAuto.undoing fun solver =>
    { solver with constraints := solver.constraints.erase id }
  return (id, moved)

def setTerm (handle : ConstraintHandle) (argument : Argument)
    (coefficient : Option α) :
    Edit α (List VariableId) := do
  let _ ← check fun solver => solver.constraintAt handle
  let coefficient ← ofOutcome (finite .coefficient coefficient)
  let id ← check fun solver => solver.checkVariable argument
  update fun solver => solver.modifyConstraint handle.id fun constraint =>
    { constraint with terms := constraint.terms.put id coefficient }
  writeIfAuto

/-- Add to a coefficient; without a term there it is the coefficient. -/
def addTerm (handle : ConstraintHandle) (argument : Argument)
    (coefficient : Option α) :
    Edit α (List VariableId) := do
  let _ ← check fun solver => solver.constraintAt handle
  let id ← check fun solver => solver.checkVariable argument
  let coefficient ← ofOutcome (finite .coefficient coefficient)
  update fun solver => solver.modifyConstraint handle.id fun constraint =>
    let total := match constraint.terms.get? id with
      | some present => present + coefficient
      | none => coefficient
    { constraint with terms := constraint.terms.put id total }
  writeIfAuto

def removeTerm (handle : ConstraintHandle) (argument : Argument) :
    Edit α (List VariableId) := do
  let _ ← check fun solver => solver.constraintAt handle
  let id ← check fun solver => solver.checkVariable argument
  update fun solver => solver.modifyConstraint handle.id fun constraint =>
    { constraint with terms := constraint.terms.erase id }
  writeIfAuto

def setSum (handle : ConstraintHandle) (total : Option α) :
    Edit α (List VariableId) := do
  let sum ← ofOutcome (finite .constraintSum total)
  let _ ← check fun solver => solver.constraintAt handle
  update fun solver => solver.modifyConstraint handle.id fun constraint =>
    { constraint with sum }
  writeIfAuto

def deleteConstraint (handle : ConstraintHandle) : Edit α Unit := do
  let _ ← check fun solver => solver.constraintAt handle
  update fun solver => solver.eraseConstraint handle.id

end Edit

end LiveLinear
