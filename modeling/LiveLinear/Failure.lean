import LiveLinear.Decimal.Text
import LiveLinear.Handle

namespace LiveLinear

/-! # Failures

Why an operation may fail, and the sentence that says so. -/

inductive Quantity where
  | variableValue
  | constraintSum
  | coefficient
  deriving DecidableEq

/-- The kinds of failure that a hook or a block may raise on its own account. -/
inductive Alarm where
  | runtime
  | value
  | overConstrained
  deriving DecidableEq

inductive Comparison where
  /-- Whether the tolerance itself is negative. -/
  | negative
  | atMost
  | below
  | above
  deriving DecidableEq

inductive Failure (α : Type u) where
  /-- Nested lists of unequal length or depth were given for a block of
  numbers. -/
  | ragged
  | notTwoAxes (shape : List Nat)
  | coefficientsNotTwoAxes (shape : List Nat)
  | noSumColumn
  | countMismatch (rows sums : Nat)
  | entriesNotFinite
  | startShape (unknowns : Nat) (shape : List Nat)
  | negativeTolerance (tolerance : α)
  /-- A comparison was made with a tolerance that is no number. -/
  | toleranceMissing (comparison : Comparison)
  | cascadeLimitTooSmall (limit : Int)
  | overConstrained
  /-- Deferred work was left after `limit` items had been processed. -/
  | cascade (limit : Int)
  | numberMissing
  | notFinite (quantity : Quantity) (value : α)
  | notVariable (kind : Kind)
  | notCallable (kind : Kind)
  | foreignVariable (id : VariableId)
  | foreignConstraint (id : ConstraintId)
  | variableDeleted (id : VariableId)
  | constraintDeleted (id : ConstraintId)
  | builderSpent
  /-- A value that changes was used as a member of a set. -/
  | notHashable (kind : Kind)
  /-- A value that belongs to no solver was asked for its solver. -/
  | withoutSolver (kind : Kind)
  /-- The value that a hook is called with was used outside a hook. -/
  | outsideHook
  | outOfBounds (index : Int) (axis size : Nat)
  | raised (alarm : Alarm) (text : String)
  | unboundLabel (label : String)
  | unknownSolver (id : SolverId)

def Quantity.name : Quantity → String
  | .variableValue => "Variable value"
  | .constraintSum => "Constraint sum"
  | .coefficient => "Coefficient"

/-- A shape in round brackets; a single length is followed by a comma. -/
def shapeText : List Nat → String
  | [] => "()"
  | [length] => "(" ++ toString length ++ ",)"
  | lengths => "(" ++ ", ".intercalate (lengths.map toString) ++ ")"

def Comparison.message : Comparison → String
  | .negative => "'<' not supported between instances of 'NoneType' and 'int'"
  | .atMost => "'<=' not supported between instances of 'float' and 'NoneType'"
  | .below => "'<' not supported between instances of 'float' and 'NoneType'"
  | .above => "'>' not supported between instances of 'float' and 'NoneType'"

def Failure.message : Failure Float → String
  | .ragged => "The nested lists are ragged"
  | .notTwoAxes shape =>
      "Matrix data must be 2-dimensional, got shape " ++ shapeText shape
  | .coefficientsNotTwoAxes shape =>
      "Coefficients must be 2-dimensional, got shape " ++ shapeText shape
  | .noSumColumn => "Matrix must have at least the sum column"
  | .countMismatch rows sums =>
      "Got " ++ toString rows ++ " coefficient rows but " ++ toString sums ++
        " sums"
  | .entriesNotFinite => "Matrix entries must be finite"
  | .startShape unknowns shape =>
      "Initial values must have shape " ++ shapeText [unknowns] ++ ", got " ++
        shapeText shape
  | .negativeTolerance tolerance =>
      "Tolerance must be non-negative, got " ++ Decimal.text tolerance
  | .toleranceMissing comparison => comparison.message
  | .cascadeLimitTooSmall limit =>
      "max_cascade must be at least 1, got " ++ toString limit
  | .overConstrained => "Solver is over-constrained and no solutions exist"
  | .cascade limit =>
      "Update hooks kept triggering solves after " ++ toString limit ++
        " rounds"
  | .numberMissing =>
      "float() argument must be a string or a real number, not 'NoneType'"
  | .notFinite quantity value =>
      quantity.name ++ " must be finite, got " ++ Decimal.text value
  | .notVariable kind => "Expected a Variable, got " ++ kind.name
  | .notCallable kind => "Update hook must be callable, got " ++ kind.name
  | .foreignVariable id =>
      "Variable " ++ toString id ++ " belongs to a different Solver"
  | .foreignConstraint id =>
      "Constraint " ++ toString id ++ " belongs to a different Solver"
  | .variableDeleted id => "Variable " ++ toString id ++ " has been deleted"
  | .constraintDeleted id => "Constraint " ++ toString id ++ " has been deleted"
  | .builderSpent => "ConstraintBuilder.build() can only be called once"
  | .notHashable kind => "unhashable type: '" ++ kind.name ++ "'"
  | .withoutSolver kind =>
      "'" ++ kind.name ++ "' object has no attribute 'solver'"
  | .outsideHook => "unsupported operand type(s) for *: 'NoneType' and 'float'"
  | .outOfBounds index axis size =>
      "index " ++ toString index ++ " is out of bounds for axis " ++
        toString axis ++ " with size " ++ toString size
  | .raised _ text => text
  | .unboundLabel label => label
  | .unknownSolver id => "Solver " ++ toString id ++ " does not exist"

example : shapeText [3] = "(3,)" := by decide +kernel
example : shapeText [1, 2] = "(1, 2)" := by decide +kernel

end LiveLinear
