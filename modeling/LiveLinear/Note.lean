import LiveLinear.Handle

namespace LiveLinear

/-! # Notes

What a solver reports about its own work, apart from its results. -/

inductive Note (α : Type u) where
  | assembled (rows columns : Nat)
  | reduced (height width rank : Nat)
  | solved (count changed : Nat)
  /-- A solve was asked for while hooks were running. -/
  | solveDeferred
  /-- A value was set while hooks were running. -/
  | valueQueued (id : VariableId) (value : α)
  /-- The constraints contradict each other and were solved all the same. -/
  | contradictionIgnored
  /-- A deferred value is taken up. -/
  | valueTaken (id : VariableId) (value : α)
  /-- A deferred solve is taken up. -/
  | solveTaken

/-- The text of a note in the running log. A note without one is not logged. -/
def Note.text? : Note α → Option String
  | .assembled rows columns =>
      some ("Assembled " ++ toString rows ++ " constraints over " ++
        toString columns ++ " variables")
  | .reduced height width rank =>
      some ("Reduced " ++ toString height ++ "x" ++ toString width ++
        " matrix, rank " ++ toString rank)
  | .solved count changed =>
      some ("Solved " ++ toString count ++ " variables, " ++
        toString changed ++ " changed")
  | .solveDeferred => some "Solve requested from an update hook, deferred"
  | .valueQueued id _ =>
      some ("set_value on variable " ++ toString id ++
        " from an update hook, queued")
  | .contradictionIgnored => none
  | .valueTaken _ _ => none
  | .solveTaken => none

def Note.warning? : Note α → Option String
  | .contradictionIgnored =>
      some "Solver is over-constrained; contradictory constraints were ignored"
  | _ => none

end LiveLinear
