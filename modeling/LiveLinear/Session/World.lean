import LiveLinear.Session.Command
import LiveLinear.Solver.Edit

namespace LiveLinear

/-! # Worlds

The solvers of a session, the labels bound so far, and the history of what
happened. Commands are carried out as actions on a world. -/

inductive Reply (α : Type u) where
  | nothing
  /-- The thing that the command was addressed to. -/
  | itself
  | truth (value : Bool)
  | count (value : Nat)
  | limit (value : Int)
  | number (value : α)
  | text (value : String)
  | numbers (values : List α)
  | variableId (id : VariableId)
  | constraintId (id : ConstraintId)
  | variableIds (ids : List VariableId)
  | terms (terms : List (VariableId × α))
  | variableText (name : String) (value : α)
  | deletedVariable (id : VariableId)
  /-- The coefficients with the names of their variables, and the sum. -/
  | constraintText (terms : List (α × String)) (sum : α)
  | deletedConstraint (id : ConstraintId)
  | subscription (id : VariableId) (active : Bool)

inductive Event (α : Type u) where
  | noted (solver : SolverId) (note : Note α)
  | roundBegan (solver : SolverId) (ids : List VariableId)
  | hookCalled (solver : SolverId) (id : VariableId) (tag : String) (value : α)
  | hookReturned (solver : SolverId) (id : VariableId)
  | roundEnded (solver : SolverId)
  /-- A command of a hook or a batch has ended. -/
  | commandEnded (command : Command α) (outcome : Except (Failure α) (Reply α))

structure Hook (α : Type u) where
  tag : String
  body : Script α

structure Builder (α : Type u) where
  solver : SolverId
  terms : Table VariableHandle (Option α)
  total : Option α
  built : Bool

/-- What registering a hook gives: the means to remove that hook again. -/
structure Subscription where
  solver : SolverId
  id : VariableId
  hook : Option HookId
  deriving DecidableEq

structure Labels (α : Type u) where
  solvers : Table String SolverId
  unknowns : Table String VariableHandle
  constraints : Table String ConstraintHandle
  builders : Table String (Builder α)
  subscriptions : Table String Subscription
  hooks : Table String HookId

structure World (α : Type u) where
  /-- The solvers ever made, in order; a solver's number is its place. -/
  solvers : List (Solver α)
  /-- The hooks ever made, in order; a hook's number is its place. -/
  hooks : List (Hook α)
  labels : Labels α
  /-- What happened, latest event first. -/
  history : List (Event α)

def World.empty : World α :=
  { solvers := []
    hooks := []
    labels := ⟨∅, ∅, ∅, ∅, ∅, ∅⟩
    history := [] }

/-- Actions on a world. An action that fails keeps what it did; an action may
also run out of the depth or the rounds it was granted, and then has no outcome
at all. -/
abbrev Action (α : Type) := ExceptT (Failure α) (StateT (World α) Option)

namespace Action

variable {α β : Type}

def exhausted : Action α β :=
  fun _ => none

def outcome (action : Action α β) : Action α (Except (Failure α) β) :=
  ExceptT.mk (action.run >>= fun result => pure (.ok result))

def ofOutcome : Except (Failure α) β → Action α β
  | .ok value => return value
  | .error failure => throw failure

def record (event : Event α) : Action α Unit :=
  modify fun world => { world with history := event :: world.history }

/-! ## Solvers -/

def solver (id : SolverId) : Action α (Solver α) := do
  match (← get).solvers[id]? with
  | some solver => return solver
  | none => throw (.unknownSolver id)

def update (id : SolverId) (change : Solver α → Solver α) : Action α Unit :=
  modify fun world => { world with solvers := world.solvers.modify id change }

def edit (id : SolverId) (edit : Edit α β) : Action α β := do
  let (result, draft) := edit.run ⟨← solver id, []⟩
  modify fun world =>
    { world with
      solvers := world.solvers.set id draft.solver
      history := draft.notes.map (.noted id) ++ world.history }
  ofOutcome result

def consult (id : SolverId) (question : Solver α → Except (Failure α) β) :
    Action α β := do
  ofOutcome (question (← solver id))

def addSolver (settings : Settings α) : Action α SolverId := do
  let id := (← get).solvers.length
  modify fun world =>
    { world with solvers := world.solvers ++ [.empty id settings] }
  return id

def addHook (tag : String) (body : Script α) : Action α HookId := do
  let id := (← get).hooks.length
  modify fun world => { world with hooks := world.hooks ++ [⟨tag, body⟩] }
  return id

/-! ## Labels -/

def lookUp (table : Labels α → Table String β) (label : String) :
    Action α β := do
  match (table (← get).labels).get? label with
  | some value => return value
  | none => throw (.unboundLabel label)

def relabel (change : Labels α → Labels α) : Action α Unit :=
  modify fun world => { world with labels := change world.labels }

def solverNamed (label : String) : Action α SolverId :=
  lookUp Labels.solvers label

def variableNamed (label : String) : Action α VariableHandle :=
  lookUp Labels.unknowns label

def constraintNamed (label : String) : Action α ConstraintHandle :=
  lookUp Labels.constraints label

def builderNamed (label : String) : Action α (Builder α) :=
  lookUp Labels.builders label

def subscriptionNamed (label : String) : Action α Subscription :=
  lookUp Labels.subscriptions label

def hookNamed (label : String) : Action α HookId :=
  lookUp Labels.hooks label

def bindSolver (label : String) (id : SolverId) : Action α Unit :=
  relabel fun labels => { labels with solvers := labels.solvers.put label id }

def bindVariable (label : String) (handle : VariableHandle) : Action α Unit :=
  relabel fun labels =>
    { labels with unknowns := labels.unknowns.put label handle }

def bindConstraint (label : Option String) (handle : ConstraintHandle) :
    Action α Unit :=
  match label with
  | none => return
  | some label =>
      relabel fun labels =>
        { labels with constraints := labels.constraints.put label handle }

def bindBuilder (label : String) (builder : Builder α) : Action α Unit :=
  relabel fun labels =>
    { labels with builders := labels.builders.put label builder }

def bindSubscription (label : Option String) (subscription : Subscription) :
    Action α Unit :=
  match label with
  | none => return
  | some label =>
      relabel fun labels =>
        { labels with
          subscriptions := labels.subscriptions.put label subscription }

def bindHook (label : String) (id : HookId) : Action α Unit :=
  relabel fun labels => { labels with hooks := labels.hooks.put label id }

end Action

end LiveLinear
