import LiveLinear.Echelon
import LiveLinear.Failure
import LiveLinear.Grid
import LiveLinear.Note

namespace LiveLinear

/-! # Tableaux

A list of equations over the same unknowns together with the tolerance at which
they are read, and whether they have been reduced. -/

structure Tableau (α : Type u) (n : Nat) where
  equations : List (Equation α n)
  tolerance : α
  reduced : Bool

def standardTolerance : Float := 1e-6

namespace Tableau

variable {α : Type u} {n : Nat}

def height (tableau : Tableau α n) : Nat :=
  tableau.equations.length

def width (_ : Tableau α n) : Nat :=
  n + 1

variable [Scalar α]

/-- Only finite numbers make equations, and only a tolerance that is not
negative reads them. No tolerance stands for one that is no number. -/
def make (equations : List (Equation α n)) (tolerance : Option α) :
    Except (Failure α) (Tableau α n) :=
  if equations.all fun equation => equation.toRow.all Scalar.isFinite then
    match tolerance with
    | none => .error (.toleranceMissing .negative)
    | some tolerance =>
        if tolerance < 0 then .error (.negativeTolerance tolerance)
        else .ok ⟨equations, tolerance, false⟩
  else .error .entriesNotFinite

def echelon (tableau : Tableau α n) : Echelon α n :=
  Echelon.ofEquations tableau.tolerance tableau.equations

def reduce (tableau : Tableau α n) : Tableau α n :=
  { tableau with equations := tableau.echelon.toList, reduced := true }

def reductionNote (tableau : Tableau α n) : Note α :=
  .reduced tableau.height tableau.width tableau.echelon.rank

/-! ## Reading a reduced tableau -/

def isOverConstrained (tableau : Tableau α n) : Bool :=
  Equation.contradictory tableau.tolerance tableau.equations

def rank (tableau : Tableau α n) : Nat :=
  Equation.independent tableau.tolerance tableau.equations

def isUnderConstrained (tableau : Tableau α n) : Bool :=
  decide (tableau.rank < n)

def pivotColumns (tableau : Tableau α n) : List (Fin n) :=
  Equation.leads tableau.tolerance tableau.equations

/-- The point that the equations determine; unknowns without a leading row keep
their value from `start`. -/
def solve (tableau : Tableau α n) (start : Vector α n) : Vector α n :=
  Equation.backSubstitute tableau.tolerance tableau.equations start

end Tableau

end LiveLinear
