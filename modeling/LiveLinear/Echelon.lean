import LiveLinear.Equation

namespace LiveLinear

/-! # Echelon form

Gaussian elimination with partial pivoting, one step per unknown, and what a
list of equations in echelon form says: its rank, its leads, whether it
contradicts itself, and the point it determines. -/

def bringToFront (first : β) (rest : List β) : Nat → β × List β
  | 0 => (first, rest)
  | index + 1 =>
      match rest[index]? with
      | some chosen => (chosen, rest.set index first)
      | none => (first, rest)

/-- The position of the largest value after `best`, the value at `place`, has
been seen and the values before `next` have been passed. -/
def largestFrom [Scalar α] (best : α) (place next : Nat) : List α → Nat
  | [] => place
  | value :: rest =>
      if Scalar.surpasses value best then largestFrom value next (next + 1) rest
      else largestFrom best place (next + 1) rest

/-- The position of the largest value: the first of equals, and the first
unordered value if there is one. -/
def largestIndex [Scalar α] (first : α) (rest : List α) : Nat :=
  largestFrom first 0 1 rest

/-- Elimination under way: the pivot rows in their final order, and the rows
that are still without a pivot. -/
structure Echelon (α : Type u) (n : Nat) where
  placed : List (Equation α n)
  active : List (Equation α n)

namespace Echelon

variable {α : Type u} {n : Nat} [Scalar α]

def choosePivot (column : Fin n) (first : Equation α n)
    (rest : List (Equation α n)) :
    Equation α n × List (Equation α n) :=
  let size := fun equation : Equation α n =>
    Scalar.magnitude (equation.coefficient column)
  bringToFront first rest (largestIndex (size first) (rest.map size))

/-- Give `column` a pivot row, if a row has more than a negligible entry there:
the column is cleared from the other rows and the pivot row is scaled. Otherwise
nothing changes. -/
def step (tolerance : α) (state : Echelon α n) (column : Fin n) : Echelon α n :=
  match state.active with
  | [] => state
  | first :: rest =>
      let (pivot, others) := choosePivot column first rest
      if Scalar.negligible tolerance (pivot.coefficient column) then state
      else
        { placed := state.placed ++ [pivot.scale column]
          active := others.map (Equation.eliminate pivot column) }

def ofEquations (tolerance : α) (equations : List (Equation α n)) :
    Echelon α n :=
  (List.finRange n).foldl (step tolerance) ⟨[], equations⟩

def toList (state : Echelon α n) : List (Equation α n) :=
  state.placed ++ state.active

def rank (state : Echelon α n) : Nat :=
  state.placed.length

end Echelon

/-! ## Reading a reduced list -/

namespace Equation

variable {α : Type u} {n : Nat} [Scalar α]

def leads (tolerance : α) (equations : List (Equation α n)) : List (Fin n) :=
  equations.filterMap (lead? tolerance)

def independent (tolerance : α) (equations : List (Equation α n)) : Nat :=
  equations.countP fun equation => !equation.isVoid tolerance

def contradictory (tolerance : α) (equations : List (Equation α n)) : Bool :=
  equations.any (isContradiction tolerance)

/-- Resolve the equations from the last to the first. Unknowns that no equation
leads keep their value from `start`. -/
def backSubstitute (tolerance : α) (equations : List (Equation α n))
    (start : Vector α n) : Vector α n :=
  equations.foldr
    (fun equation point =>
      match equation.lead? tolerance with
      | none => point
      | some lead => point.set lead.val (equation.resolve lead point) lead.isLt)
    start

end Equation

end LiveLinear
