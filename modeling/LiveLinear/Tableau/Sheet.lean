import LiveLinear.Tableau.Basic

namespace LiveLinear

/-! # Sheets

Tableaux of any width, read from blocks of numbers, and a workbook of them that
is worked through command by command. -/

structure Sheet (α : Type u) where
  unknowns : Nat
  tableau : Tableau α unknowns

inductive Block (α : Type u) where
  | spelled (rows : Nested α)
  | zeros (shape : List Nat)

namespace Block

variable {α : Type u} [Zero α]

def grid (block : Block α) : Except (Failure α) (Grid α) :=
  let found := match block with
    | .zeros shape => some (Grid.constant shape 0)
    | .spelled rows => Grid.ofNested? rows
  match found.bind Grid.limited with
  | some grid => .ok grid
  | none => .error .ragged

end Block

namespace Sheet

variable {α : Type u} [Scalar α]

def ofGrid (grid : Grid α) (tolerance : Option α) :
    Except (Failure α) (Sheet α) :=
  match grid.shape with
  | [_, 0] => .error .noSumColumn
  | [height, unknowns + 1] =>
      (Tableau.make
        ((grid.rows height (unknowns + 1)).map (Equation.ofRow (n := unknowns)))
        tolerance).map fun tableau => ⟨unknowns, tableau⟩
  | shape => .error (.notTwoAxes shape)

/-- Read a block of coefficients and, of any shape, as many sums. -/
def ofSystem (coefficients sums : Grid α) (tolerance : Option α) :
    Except (Failure α) (Sheet α) :=
  match coefficients.shape with
  | [height, unknowns] =>
      if height = sums.entries.length then
        let rows := List.zipWith (fun row sum => row ++ [sum])
          (coefficients.rows height unknowns) sums.entries
        (Tableau.make (rows.map (Equation.ofRow (n := unknowns))) tolerance).map
          fun tableau => ⟨unknowns, tableau⟩
      else .error (.countMismatch height sums.entries.length)
  | shape => .error (.coefficientsNotTwoAxes shape)

def describe (sheet : Sheet α) : String :=
  "Matrix(" ++ toString sheet.tableau.height ++ "x" ++
    toString sheet.tableau.width ++ ", " ++
    (if sheet.tableau.reduced then "reduced" else "unreduced") ++ ")"

/-! ## Commands -/

inductive Command (α : Type u) where
  | reduce
  | solve (start : Option (Block α))
  | isOverConstrained
  | isUnderConstrained
  | rank
  | pivotColumns
  | describe
  | copy
  /-- Rows and columns are counted from zero; negative numbers count from the
  end. -/
  | write (row column : Int) (value : α)
  | setTolerance (value : α)

inductive Answer (α : Type u) where
  | done
  | written
  | point (values : List α)
  | truth (value : Bool)
  | count (value : Nat)
  | columns (indices : List Nat)
  | text (value : String)
  /-- The place of a new sheet in the workbook. -/
  | copied (place : Nat)

def ensureReduced (sheet : Sheet α) : Sheet α × List (Note α) :=
  if sheet.tableau.reduced then (sheet, [])
  else (⟨sheet.unknowns, sheet.tableau.reduce⟩, [sheet.tableau.reductionNote])

/-- The start of a solution: zero, or the given block if it has one axis with
one number for each unknown. -/
def start (sheet : Sheet α) : Option (Block α) →
    Except (Failure α) (Vector α sheet.unknowns)
  | none => .ok (Vector.ofFn fun _ => 0)
  | some block =>
      block.grid.bind fun grid =>
        if grid.shape = [sheet.unknowns] then
          .ok (Vector.ofFn fun column => grid.entries.getD column.val 0)
        else .error (.startShape sheet.unknowns grid.shape)

def solve (sheet : Sheet α) (block : Option (Block α)) :
    Except (Failure α) (List α) :=
  (sheet.start block).map fun point => (sheet.tableau.solve point).toList

/-- The place that an index names along an axis; negative ones count from the
end. -/
def place (index : Int) (axis size : Nat) : Except (Failure α) Nat :=
  if 0 ≤ index ∧ index < size then .ok index.toNat
  else if index < 0 ∧ -(size : Int) ≤ index then .ok (index + size).toNat
  else .error (.outOfBounds index axis size)

/-- Overwrite one number of the augmented matrix; the number is not checked. -/
def write (sheet : Sheet α) (row column : Int) (value : α) :
    Except (Failure α) (Sheet α) :=
  (place row 0 sheet.tableau.height).bind fun row =>
    (place column 1 sheet.tableau.width).map fun column =>
      ⟨sheet.unknowns,
        { sheet.tableau with
          equations := sheet.tableau.equations.modify row fun equation =>
            .ofRow (equation.toRow.set column value) }⟩

def setTolerance (sheet : Sheet α) (value : α) : Sheet α :=
  ⟨sheet.unknowns, { sheet.tableau with tolerance := value }⟩

/-- A fresh copy is checked like a new sheet; it is reduced if the sheet is. -/
def copy (sheet : Sheet α) : Except (Failure α) (Sheet α) :=
  (Tableau.make sheet.tableau.equations (some sheet.tableau.tolerance)).map
    fun tableau =>
      ⟨sheet.unknowns, { tableau with reduced := sheet.tableau.reduced }⟩

end Sheet

/-! ## Workbooks -/

abbrev Workbook (α : Type u) := List (Sheet α)

namespace Workbook

variable {α : Type u} [Scalar α]

structure Step (α : Type u) where
  answer : Except (Failure α) (Sheet.Answer α)
  notes : List (Note α)
  sheet : Sheet α

def inspect (sheet : Sheet α)
    (answer : Sheet α → Except (Failure α) (Sheet.Answer α)) :
    Step α :=
  let (reduced, notes) := sheet.ensureReduced
  ⟨answer reduced, notes, reduced⟩

def perform (workbook : Workbook α) (sheet : Sheet α) :
    Sheet.Command α → Step α
  | .reduce =>
      ⟨.ok .done, [sheet.tableau.reductionNote],
        ⟨sheet.unknowns, sheet.tableau.reduce⟩⟩
  | .solve block =>
      inspect sheet fun reduced => (reduced.solve block).map .point
  | .isOverConstrained =>
      inspect sheet fun reduced =>
        .ok (.truth reduced.tableau.isOverConstrained)
  | .isUnderConstrained =>
      inspect sheet fun reduced =>
        .ok (.truth reduced.tableau.isUnderConstrained)
  | .rank => inspect sheet fun reduced => .ok (.count reduced.tableau.rank)
  | .pivotColumns =>
      inspect sheet fun reduced =>
        .ok (.columns (reduced.tableau.pivotColumns.map Fin.val))
  | .describe => ⟨.ok (.text sheet.describe), [], sheet⟩
  | .copy => ⟨sheet.copy.map fun _ => .copied workbook.length, [], sheet⟩
  | .write row column value =>
      match sheet.write row column value with
      | .ok written => ⟨.ok .written, [], written⟩
      | .error failure => ⟨.error failure, [], sheet⟩
  | .setTolerance value => ⟨.ok .written, [], sheet.setTolerance value⟩

/-- The sheets that a command adds: a copy that passed its checks. -/
def added (sheet : Sheet α) : Sheet.Command α → List (Sheet α)
  | .copy =>
      match sheet.copy with
      | .ok clone => [clone]
      | .error _ => []
  | _ => []

/-- Work through commands, each on the sheet at the place it names. A command
for a place without a sheet is passed over. -/
def run (workbook : Workbook α) : List (Nat × Sheet.Command α) → List (Step α)
  | [] => []
  | (place, command) :: rest =>
      match workbook[place]? with
      | none => run workbook rest
      | some sheet =>
          let step := workbook.perform sheet command
          step :: run
            (workbook.set place step.sheet ++ added sheet command) rest

end Workbook

end LiveLinear
