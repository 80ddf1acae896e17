import LiveLinear.Session.World

namespace LiveLinear

/-! # Questions

What solvers, variables, constraints and subscriptions say of themselves. Asking
changes nothing, except that reducing the constraints is noted. -/

namespace Action

variable {α : Type} [Scalar α]

def askSolver (id : SolverId) : SolverQuery → Action α (Reply α)
  | .isOverConstrained => return .truth (← edit id Edit.isOverConstrained)
  | .isUnderConstrained => return .truth (← edit id Edit.isUnderConstrained)
  | .freeVariables => return .variableIds (← edit id Edit.freeVariables)
  | .residuals => return .numbers (← solver id).residuals
  | .describe => do
      let solver ← solver id
      return .text
        ("Solver(" ++ toString solver.unknowns.size ++ " variables, " ++
          toString solver.constraints.size ++ " constraints, auto_solve=" ++
          (if solver.settings.autoSolve then "True" else "False") ++ ")")
  | .autoSolve => return .truth (← solver id).settings.autoSolve
  | .refusesContradiction =>
      return .truth (← solver id).settings.refusesContradiction
  | .tolerance => do
      match (← solver id).settings.tolerance with
      | some tolerance => return .number tolerance
      | none => throw .numberMissing
  | .cascadeLimit => return .limit (← solver id).settings.cascadeLimit

def askVariable (handle : VariableHandle) (query : VariableQuery) :
    Action α (Reply α) :=
  consult handle.solver fun solver =>
    match query with
    | .name =>
        (solver.variableAt handle).map fun contents => .text contents.name
    | .value =>
        (solver.variableAt handle).map fun contents => .number contents.value
    | .isLocked =>
        (solver.variableAt handle).map fun contents =>
          .truth contents.lock.isSome
    | .doesExist => .ok (.truth (solver.unknowns.contains handle.id))
    | .describe =>
        match solver.unknowns.get? handle.id with
        | some contents => .ok (.variableText contents.name contents.value)
        | none => .ok (.deletedVariable handle.id)

def nameOf (solver : Solver α) (id : VariableId) : String :=
  ((solver.unknowns.get? id).map Variable.name).getD ""

def askConstraint (handle : ConstraintHandle) (query : ConstraintQuery) :
    Action α (Reply α) :=
  consult handle.solver fun solver =>
    let contents := solver.constraintAt handle
    match query with
    | .sum => contents.map fun constraint => .number constraint.sum
    | .terms => contents.map fun constraint => .terms constraint.terms.entries
    | .support => do
        let constraint ← contents
        if constraint.terms.entries.isEmpty then return .variableIds []
        let tolerance ← solver.settings.toleranceFor .above
        return .variableIds ((constraint.terms.entries.filter fun term =>
          Scalar.significant tolerance term.2).map Prod.fst)
    | .evaluate =>
        contents.map fun constraint => .number (solver.evaluate constraint)
    | .residual =>
        contents.map fun constraint => .number (solver.residual constraint)
    | .isSatisfied => do
        return .truth (← solver.isSatisfied (← contents))
    | .doesExist => .ok (.truth (solver.constraints.contains handle.id))
    | .describe =>
        match solver.constraints.get? handle.id with
        | some constraint =>
            .ok (.constraintText
              (constraint.terms.entries.map fun term =>
                (term.2, nameOf solver term.1))
              constraint.sum)
        | none => .ok (.deletedConstraint handle.id)

def coefficient (handle : ConstraintHandle) (argument : Argument) :
    Action α α :=
  consult handle.solver fun solver => do
    let id ← solver.checkVariable argument
    let constraint ← solver.constraintAt handle
    return (constraint.terms.get? id).getD 0

def isActive (subscription : Subscription) : Action α Bool := do
  let solver ← solver subscription.solver
  let present := (solver.unknowns.get? subscription.id).bind Variable.hook
  return subscription.hook.isSome && decide (present = subscription.hook)

end Action

end LiveLinear
