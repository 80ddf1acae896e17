namespace LiveLinear

/-! # Grids

Rectangular blocks of numbers with any number of axes, and the nested lists from
which they are read. -/

inductive Nested (α : Type u) where
  | leaf (value : α)
  | node (children : List (Nested α))

instance : Inhabited (Nested α) :=
  ⟨.node []⟩

/-- A block of the given shape, its entries with the last axis running
fastest. -/
structure Grid (α : Type u) where
  shape : List Nat
  entries : List α

namespace Grid

variable {α : Type u}

def axisLimit : Nat := 64

def constant (shape : List Nat) (value : α) : Grid α :=
  ⟨shape, List.replicate (shape.foldl (· * ·) 1) value⟩

def limited (grid : Grid α) : Option (Grid α) :=
  if grid.shape.length ≤ axisLimit then some grid else none

/-- Put blocks of one shape on top of each other. The blocks are nonempty in
number; no blocks at all make an axis of length zero. Blocks of different shapes
do not stack. -/
def stack? : List (Grid α) → Option (Grid α)
  | [] => some ⟨[0], []⟩
  | first :: rest =>
      if rest.all fun block => decide (block.shape = first.shape) then
        some
          { shape := (rest.length + 1) :: first.shape
            entries := first.entries ++ rest.flatMap Grid.entries }
      else none

mutual

def ofNested? : Nested α → Option (Grid α)
  | .leaf value => some ⟨[], [value]⟩
  | .node children => (ofChildren? children).bind stack?

def ofChildren? : List (Nested α) → Option (List (Grid α))
  | [] => some []
  | child :: rest =>
      match ofNested? child, ofChildren? rest with
      | some block, some blocks => some (block :: blocks)
      | _, _ => none

end

def rows (grid : Grid α) (height width : Nat) : List (List α) :=
  (List.range height).map fun row =>
    (grid.entries.drop (row * width)).take width

example :
    (ofNested? (.node [.node [.leaf 1, .leaf 2], .node [.leaf 3, .leaf 4]])).map
      shape = some [2, 2] := rfl

example :
    (ofNested? (.node [.node [.node ([] : List (Nested Nat))]])).map shape =
      some [1, 1, 0] := rfl

example : (ofNested? (.node [.node [.leaf 1], .leaf 2])).map shape = none := rfl

end Grid

end LiveLinear
