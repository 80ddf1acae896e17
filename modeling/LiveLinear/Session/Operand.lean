import LiveLinear.Session.World

namespace LiveLinear

/-! # Operands

What the labels, numbers and references in a command stand for when the command
is carried out. -/

namespace Action

variable {α : Type} [Scalar α]

def evaluate (context : Option α) : Operand α → Action α (Option α)
  | .literal value => return value
  | .derived (some label) factor offset => do
      let handle ← variableNamed label
      let contents ← consult handle.solver fun solver =>
        solver.variableAt handle
      return some (contents.value * factor + offset)
  | .derived none factor offset => do
      match context with
      | some base => return some (base * factor + offset)
      | none => throw .outsideHook

def resolve : Target → Action α Argument
  | .label label => return .handle (← variableNamed label)
  | .foreign value => return .foreign value

def dereference : Reference → Action α Referent
  | .ofVariable label => return .ofVariable (← variableNamed label)
  | .ofConstraint label => return .ofConstraint (← constraintNamed label)
  | .foreign value => return .foreign value

def dereferenceAll : List Reference → Action α (List Referent)
  | [] => return []
  | reference :: rest => do
      let referent ← dereference reference
      if let .foreign value := referent then
        if !value.kind.isHashable then throw (.notHashable value.kind)
      return referent :: (← dereferenceAll rest)

def resolveAll : List (Target × Operand α) →
    Action α (List (Argument × Operand α))
  | [] => return []
  | (target, operand) :: rest =>
      return (← resolve target, operand) :: (← resolveAll rest)

/-- The terms that pairs of arguments and numbers make, `pairs` being the terms
so far: an argument that comes again keeps its first place and has its last
number. -/
def collectTerms (context : Option α) (pairs : List (Argument × Option α)) :
    List (Argument × Operand α) → Action α (List (Argument × Option α))
  | [] => return pairs
  | (argument, operand) :: rest => do
      let value ← evaluate context operand
      if let .foreign value := argument then
        if !value.kind.isHashable then throw (.notHashable value.kind)
      collectTerms context (Argument.insert pairs argument value) rest

end Action

end LiveLinear
