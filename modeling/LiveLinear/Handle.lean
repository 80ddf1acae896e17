import LiveLinear.Foreign

namespace LiveLinear

/-! # Handles

The names by which solvers, variables, constraints and hooks are referred to. A
handle is only a name: it may point at something deleted, or at nothing that
ever was. -/

abbrev SolverId := Nat

/-- Variables are numbered from zero within their solver; a handle may carry any
number. -/
abbrev VariableId := Int

/-- Constraints are numbered from zero within their solver, apart from
variables. -/
abbrev ConstraintId := Int

abbrev HookId := Nat

structure VariableHandle where
  solver : SolverId
  id : VariableId
  deriving DecidableEq

structure ConstraintHandle where
  solver : SolverId
  id : ConstraintId
  deriving DecidableEq

inductive Argument where
  | handle (value : VariableHandle)
  | foreign (value : Foreign)

namespace Argument

def same : Argument → Argument → Bool
  | .handle left, .handle right => decide (left = right)
  | .foreign left, .foreign right => left.same right
  | _, _ => false

/-- Add a pair to a list of pairs: an argument that is there already keeps its
place and takes the new value. -/
def insert (pairs : List (Argument × β)) (argument : Argument) (value : β) :
    List (Argument × β) :=
  if pairs.any fun pair => argument.same pair.1 then
    pairs.map fun pair => if argument.same pair.1 then (pair.1, value) else pair
  else pairs ++ [(argument, value)]

end Argument

inductive Referent where
  | ofVariable (handle : VariableHandle)
  | ofConstraint (handle : ConstraintHandle)
  | foreign (value : Foreign)

namespace Referent

def same : Referent → Referent → Bool
  | .ofVariable left, .ofVariable right => decide (left = right)
  | .ofConstraint left, .ofConstraint right => decide (left = right)
  | .foreign left, .foreign right => left.same right
  | _, _ => false

def countDistinct : List Referent → Nat
  | [] => 0
  | first :: rest =>
      if rest.any first.same then countDistinct rest else countDistinct rest + 1

end Referent

end LiveLinear
