import LiveLinear.Scalar

namespace LiveLinear

/-! # Equations

One linear equation over `n` unknowns, the row operations of elimination, and
how an equation determines an unknown. -/

/-- The equation `Σ coefficients[j] * x[j] = sum`. -/
structure Equation (α : Type u) (n : Nat) where
  coefficients : Vector α n
  sum : α

namespace Equation

variable {α : Type u} {n : Nat}

def ofRow [Zero α] (row : List α) : Equation α n :=
  { coefficients := Vector.ofFn fun column => row.getD column.val 0
    sum := row.getD n 0 }

def toRow (equation : Equation α n) : List α :=
  equation.coefficients.toList ++ [equation.sum]

def coefficient (equation : Equation α n) (column : Fin n) : α :=
  equation.coefficients[column]

variable [Scalar α]

/-- Subtract the multiple of `pivot` that clears `column`. Only `column` and
what follows it take part, and the cleared entry is zero by decision, not by
rounding. -/
def eliminate (pivot : Equation α n) (column : Fin n)
    (equation : Equation α n) :
    Equation α n :=
  let multiplier := equation.coefficient column / pivot.coefficient column
  { coefficients := Vector.ofFn fun index =>
      if index < column then equation.coefficient index
      else if index = column then 0
      else equation.coefficient index - multiplier * pivot.coefficient index
    sum := equation.sum - multiplier * pivot.sum }

def scale (column : Fin n) (equation : Equation α n) : Equation α n :=
  let divisor := equation.coefficient column
  { coefficients := Vector.ofFn fun index =>
      if index < column then equation.coefficient index
      else if index = column then 1
      else equation.coefficient index / divisor
    sum := equation.sum / divisor }

def isVoid (tolerance : α) (equation : Equation α n) : Bool :=
  equation.coefficients.toList.all (Scalar.negligible tolerance)

def isContradiction (tolerance : α) (equation : Equation α n) : Bool :=
  equation.isVoid tolerance && Scalar.significant tolerance equation.sum

/-- The unknown that the equation determines: the first with a significant
coefficient. Without one (a coefficient may be unordered) it is the first
unknown. A void equation determines nothing. -/
def lead? (tolerance : α) (equation : Equation α n) : Option (Fin n) :=
  if equation.isVoid tolerance then none
  else
    ((List.finRange n).find? fun column =>
      Scalar.significant tolerance (equation.coefficient column)) <|>
    (List.finRange n).head?

def after (equation : Equation α n) (lead : Fin n) (point : Vector α n) : α :=
  (List.finRange n).foldl
    (fun total column =>
      if lead < column then total + equation.coefficient column * point[column]
      else total)
    0

def resolve (equation : Equation α n) (lead : Fin n) (point : Vector α n) : α :=
  (equation.sum - equation.after lead point) / equation.coefficient lead

end Equation

end LiveLinear
