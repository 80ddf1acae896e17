import LiveLinear.Session.World

namespace LiveLinear

/-! # Reports

The texts in which variables, constraints and subscriptions show themselves. -/

namespace Report

def variableText (name : String) (value : Float) : String :=
  name ++ " = " ++ Decimal.text value

def deletedVariable (id : VariableId) : String :=
  "<deleted variable " ++ toString id ++ ">"

def constraintText (terms : List (Float × String)) (sum : Float) : String :=
  let left := " + ".intercalate (terms.map fun term =>
    Decimal.text term.1 ++ " * " ++ term.2)
  (if left.isEmpty then "0" else left) ++ " = " ++ Decimal.text sum

def deletedConstraint (id : ConstraintId) : String :=
  "<deleted constraint " ++ toString id ++ ">"

def wrapped (name text : String) : String :=
  name ++ "(" ++ text ++ ")"

def subscription (id : VariableId) (active : Bool) : String :=
  wrapped "Subscription"
    ("variable=" ++ toString id ++ ", " ++
      (if active then "active" else "cancelled"))

end Report

end LiveLinear
