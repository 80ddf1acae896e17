import LiveLinear.Session.Ask
import LiveLinear.Session.Dispatch
import LiveLinear.Session.Operand

namespace LiveLinear

/-! # Running commands

What each command does to a world. Labels are looked up first, then numbers are
computed, and then the solver is asked. -/

namespace Action

variable {α β : Type} [Scalar α]

/-! ## Changes -/

def newSolver (label : String) (autoSolve refusesContradiction : Bool)
    (tolerance : Option α) (cascadeLimit : Int) : Action α (Reply α) := do
  match tolerance with
  | none => throw (.toleranceMissing .negative)
  | some value =>
      if value < 0 then throw (.negativeTolerance value)
      if cascadeLimit < 1 then throw (.cascadeLimitTooSmall cascadeLimit)
      let id ← addSolver
        { autoSolve, refusesContradiction, tolerance, cascadeLimit }
      bindSolver label id
      return .nothing

/-- Change a setting; nothing is checked and nothing is solved. -/
def changeSetting (context : Option α) (id : SolverId) :
    SettingChange α → Action α (Reply α)
  | .autoSolve autoSolve => do
      update id fun solver => solver.setSettings fun settings =>
        { settings with autoSolve }
      return .nothing
  | .refusesContradiction refusesContradiction => do
      update id fun solver =>
        solver.setSettings fun settings =>
          { settings with refusesContradiction }
      return .nothing
  | .tolerance operand => do
      let tolerance ← evaluate context operand
      update id fun solver => solver.setSettings fun settings =>
        { settings with tolerance }
      return .nothing
  | .cascadeLimit cascadeLimit => do
      update id fun solver => solver.setSettings fun settings =>
        { settings with cascadeLimit }
      return .nothing

def addConstraint (engine : Engine α) (id : SolverId)
    (terms : List (Argument × Option α)) (total : Option α)
    (label : Option String) : Action α (Reply α) := do
  let (constraint, moved) ← edit id (Edit.addConstraint terms total)
  announce engine id moved
  bindConstraint label ⟨id, constraint⟩
  return .constraintId constraint

/-- Add the constraint that a builder has put together. A builder does that
once, even if it fails. -/
def build (engine : Engine α) (name : String) (label : Option String) :
    Action α (Reply α) := do
  let builder ← builderNamed name
  if builder.built then throw .builderSpent
  bindBuilder name { builder with built := true }
  let terms := builder.terms.entries.map fun term =>
    (Argument.handle term.1, term.2)
  addConstraint engine builder.solver terms builder.total label

def styled : Style → Reply α
  | .chained => .itself
  | .assigned => .nothing

def observe (handle : VariableHandle) (hook : Option HookId)
    (label : Option String) :
    Action α (Reply α) := do
  edit handle.solver (Edit.observe handle hook)
  bindSubscription label ⟨handle.solver, handle.id, hook⟩
  return .nothing

/-! ## Commands -/

def operate (engine : Engine α) (context : Option α) : Operation α →
    Action α (Reply α)
  | .newSolver label autoSolve refusesContradiction tolerance cascadeLimit => do
      newSolver label autoSolve refusesContradiction
        (← evaluate context tolerance) cascadeLimit
  | .change name setting => do
      changeSetting context (← solverNamed name) setting
  | .askSolver name query => do
      askSolver (← solverNamed name) query
  | .solve name => do
      perform engine (← solverNamed name) Edit.writeSolution
      return .nothing
  | .addVariable name label title operand => do
      let id ← solverNamed name
      let value ← evaluate context operand
      let variableId ← edit id (Edit.addVariable title value)
      bindVariable label ⟨id, variableId⟩
      return .variableId variableId
  | .addConstraint name label targets operand => do
      let targets ← resolveAll targets
      let id ← solverNamed name
      let terms ← collectTerms context [] targets
      let total ← evaluate context operand
      addConstraint engine id terms total label
  | .checkConstraint name subject => do
      let handle ← constraintNamed subject
      let id ← solverNamed name
      let _ ← consult id fun solver => solver.constraintAt handle
      return .nothing
  | .newBuilder name label => do
      bindBuilder label
        { solver := ← solverNamed name
          terms := ∅
          total := some 0
          built := false }
      return .nothing
  | .builderTerm name target operand => do
      let builder ← builderNamed name
      let argument ← resolve target
      let value ← evaluate context operand
      let _ ← consult builder.solver fun solver => solver.checkVariable argument
      if let .handle handle := argument then
        bindBuilder name
          { builder with terms := builder.terms.put handle value }
      return .itself
  | .builderSum name operand => do
      let builder ← builderNamed name
      let total ← evaluate context operand
      bindBuilder name { builder with total }
      return .itself
  | .build name label => build engine name label
  | .variableHandle name id label => do
      bindVariable label ⟨← solverNamed name, id⟩
      return .nothing
  | .constraintHandle name id label => do
      bindConstraint (some label) ⟨← solverNamed name, id⟩
      return .nothing
  | .askVariable subject query => do
      askVariable (← variableNamed subject) query
  | .valueEquals left right operand => do
      let left ← variableNamed left
      let right ← variableNamed right
      let tolerance ← evaluate context operand
      let first ← consult left.solver fun solver => solver.variableAt left
      let second ← consult right.solver fun solver => solver.variableAt right
      let tolerance ← match tolerance with
        | some tolerance => pure tolerance
        | none =>
            consult left.solver fun solver =>
              solver.settings.toleranceFor .below
      return .truth
        (decide (Scalar.magnitude (first.value - second.value) < tolerance))
  | .setValue subject operand style => do
      let handle ← variableNamed subject
      let value ← evaluate context operand
      perform engine handle.solver (Edit.setValue handle value)
      return styled style
  | .lock subject => do
      let handle ← variableNamed subject
      perform engine handle.solver (Edit.lock handle)
      return .itself
  | .unlock subject => do
      let handle ← variableNamed subject
      edit handle.solver (Edit.unlock handle)
      return .itself
  | .lockConstraint subject label => do
      let handle ← variableNamed subject
      let contents ← consult handle.solver fun solver =>
        solver.variableAt handle
      match contents.lock with
      | none => return .nothing
      | some held =>
          bindConstraint label ⟨handle.solver, held⟩
          return .constraintId held
  | .deleteVariable subject => do
      let handle ← variableNamed subject
      edit handle.solver (Edit.deleteVariable handle)
      return .nothing
  | .sameSolver name reference => do
      let handle ← dereference reference
      let id ← solverNamed name
      match handle with
      | .ofVariable handle => return .truth (handle.solver == id)
      | .ofConstraint handle => return .truth (handle.solver == id)
      | .foreign value => throw (.withoutSolver value.kind)
  | .sameHandle left right => do
      let left ← dereference left
      let right ← dereference right
      return .truth (left.same right)
  | .countHandles references => do
      return .count (Referent.countDistinct (← dereferenceAll references))
  | .cancel name => do
      let subscription ← subscriptionNamed name
      edit subscription.solver (Edit.forget subscription.id subscription.hook)
      return .nothing
  | .subscriptionStatus name => do
      let subscription ← subscriptionNamed name
      return .subscription subscription.id (← isActive subscription)
  | .raise alarm text => throw (.raised alarm text)
  | .askConstraint subject query => do
      askConstraint (← constraintNamed subject) query
  | .coefficient subject target => do
      let handle ← constraintNamed subject
      let argument ← resolve target
      return .number (← coefficient handle argument)
  | .contains subject target => do
      let handle ← constraintNamed subject
      let argument ← resolve target
      let value ← coefficient handle argument
      let tolerance ← consult handle.solver fun solver =>
        solver.settings.toleranceFor .above
      return .truth (Scalar.significant tolerance value)
  | .setTerm subject target operand => do
      let handle ← constraintNamed subject
      let argument ← resolve target
      let value ← evaluate context operand
      perform engine handle.solver (Edit.setTerm handle argument value)
      return .itself
  | .addTerm subject target operand => do
      let handle ← constraintNamed subject
      let argument ← resolve target
      let value ← evaluate context operand
      perform engine handle.solver (Edit.addTerm handle argument value)
      return .itself
  | .removeTerm subject target => do
      let handle ← constraintNamed subject
      let argument ← resolve target
      perform engine handle.solver (Edit.removeTerm handle argument)
      return .itself
  | .setSum subject operand style => do
      let handle ← constraintNamed subject
      let total ← evaluate context operand
      perform engine handle.solver (Edit.setSum handle total)
      return styled style
  | .deleteConstraint subject => do
      let handle ← constraintNamed subject
      edit handle.solver (Edit.deleteConstraint handle)
      return .nothing

mutual

def execute (engine : Engine α) (context : Option α) : Command α →
    Action α (Reply α)
  | .operation operation => operate engine context operation
  | .batch name body => do
      let id ← solverNamed name
      let former := (← solver id).settings.autoSolve
      update id fun solver => solver.setSettings fun settings =>
        { settings with autoSolve := false }
      let result ← (executeScript engine context body).outcome
      update id fun solver => solver.setSettings fun settings =>
        { settings with autoSolve := former }
      ofOutcome result
      if former then perform engine id Edit.writeSolution
      return .itself
  | .defineHook label body => do
      bindHook label (← addHook label body)
      return .nothing
  | .observe subject listener label => do
      let handle ← variableNamed subject
      match listener with
      | .nobody => observe handle none label
      | .label name => observe handle (some (← hookNamed name)) label
      | .foreign kind => throw (.notCallable kind)
  | .observeInline subject body label => do
      let handle ← variableNamed subject
      observe handle (some (← addHook subject body)) label

/-- Carry out commands in order. The first failure of a command that is not
guarded ends the script. -/
def executeScript (engine : Engine α) (context : Option α) : Script α →
    Action α Unit
  | .done => return
  | .next command guarded rest => do
      let result ← (execute engine context command).outcome
      record (.commandEnded command result)
      if !guarded then
        let _ ← ofOutcome result
      executeScript engine context rest

end

end Action

end LiveLinear
