import LiveLinear.Handle
import LiveLinear.Failure

namespace LiveLinear

/-! # Commands

What can be asked of solvers in a session. Solvers, variables, constraints,
builders, subscriptions and hooks are called by labels. Hooks and batches hold
commands of their own, as a script. -/

/-- A number in a command: given outright, possibly missing, or computed when
the command is carried out. -/
inductive Operand (α : Type u) where
  | literal (value : Option α)
  /-- `base * factor + offset`. The base is the value of the labelled variable
  or, without a label, the value that the enclosing hook was called with. -/
  | derived (source : Option String) (factor offset : α)

inductive Target where
  | label (name : String)
  | foreign (value : Foreign)

inductive Reference where
  | ofVariable (label : String)
  | ofConstraint (label : String)
  | foreign (value : Foreign)

inductive SolverQuery where
  | isOverConstrained
  | isUnderConstrained
  | freeVariables
  | residuals
  | describe
  | autoSolve
  | refusesContradiction
  | tolerance
  | cascadeLimit

inductive VariableQuery where
  | name
  | value
  | isLocked
  | doesExist
  | describe

inductive ConstraintQuery where
  | sum
  | terms
  | support
  | evaluate
  | residual
  | isSatisfied
  | doesExist
  | describe

inductive SettingChange (α : Type u) where
  | autoSolve (value : Bool)
  | refusesContradiction (value : Bool)
  | tolerance (value : Operand α)
  | cascadeLimit (value : Int)

/-- Whether a change hands the changed thing back, or is written as an
assignment. -/
inductive Style where
  | chained
  | assigned
  deriving DecidableEq

inductive Operation (α : Type u) where
  | newSolver (label : String) (autoSolve refusesContradiction : Bool)
      (tolerance : Operand α) (cascadeLimit : Int)
  | change (solver : String) (setting : SettingChange α)
  | askSolver (solver : String) (query : SolverQuery)
  | solve (solver : String)
  | addVariable (solver : String) (label : String) (name : Option String)
      (value : Operand α)
  | addConstraint (solver : String) (label : Option String)
      (terms : List (Target × Operand α)) (total : Operand α)
  | checkConstraint (solver : String) (constraint : String)
  | newBuilder (solver : String) (label : String)
  | builderTerm (builder : String) (target : Target) (coefficient : Operand α)
  | builderSum (builder : String) (total : Operand α)
  | build (builder : String) (label : Option String)
  | variableHandle (solver : String) (id : VariableId) (label : String)
  | constraintHandle (solver : String) (id : ConstraintId) (label : String)
  | askVariable (subject : String) (query : VariableQuery)
  | valueEquals (left right : String) (tolerance : Operand α)
  | setValue (subject : String) (value : Operand α) (style : Style)
  | lock (subject : String)
  | unlock (subject : String)
  | lockConstraint (subject : String) (label : Option String)
  | deleteVariable (subject : String)
  | sameSolver (solver : String) (reference : Reference)
  | sameHandle (left right : Reference)
  | countHandles (references : List Reference)
  | cancel (subscription : String)
  | subscriptionStatus (subscription : String)
  | raise (alarm : Alarm) (text : String)
  | askConstraint (subject : String) (query : ConstraintQuery)
  | coefficient (subject : String) (target : Target)
  | contains (subject : String) (target : Target)
  | setTerm (subject : String) (target : Target) (coefficient : Operand α)
  | addTerm (subject : String) (target : Target) (coefficient : Operand α)
  | removeTerm (subject : String) (target : Target)
  | setSum (subject : String) (total : Operand α) (style : Style)
  | deleteConstraint (subject : String)

/-- What is registered with a variable: nothing, a hook that has a label, or a
value that cannot be called. -/
inductive Listener where
  | nobody
  | label (name : String)
  | foreign (kind : Kind)

mutual

inductive Command (α : Type u) where
  | operation (operation : Operation α)
  /-- Carry out a script with automatic solving off, and solve once at the
  end. -/
  | batch (solver : String) (body : Script α)
  | defineHook (label : String) (body : Script α)
  | observe (subject : String) (listener : Listener) (label : Option String)
  /-- Register a script as a hook that has no label of its own. -/
  | observeInline (subject : String) (body : Script α) (label : Option String)

/-- Commands one after another. A guarded command may fail without ending the
script. -/
inductive Script (α : Type u) where
  | done
  | next (command : Command α) (guarded : Bool) (rest : Script α)

end

instance : Inhabited (Script α) :=
  ⟨.done⟩

instance : Inhabited (Command α) :=
  ⟨.defineHook "" .done⟩

namespace Script

def ofList : List (Command α × Bool) → Script α
  | [] => .done
  | (command, guarded) :: rest => .next command guarded (ofList rest)

end Script

end LiveLinear
