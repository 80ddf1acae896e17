import LiveLinear.Session.World

namespace LiveLinear

/-! # Dispatch

After an edit has moved values, the hooks of the moved variables are called, one
round. What the hooks ask for meanwhile is put off and processed after the
round, item by item; each item may cause another round. -/

/-- What carrying out commands needs from outside: how to run the script of a
hook called with a value, and how many deferred items may be taken up at most
before the attempt is given up. -/
structure Engine (α : Type) where
  call : Script α → α → Action α Unit
  patience : Nat

namespace Action

variable {α β : Type} [Scalar α]

def notify (engine : Engine α) (id : SolverId) (target : VariableId) :
    Action α Unit := do
  let solver ← solver id
  match solver.unknowns.get? target with
  | some { value, hook := some hook, .. } =>
      match (← get).hooks[hook]? with
      | none => return
      | some { tag, body } =>
          record (.hookCalled id target tag value)
          engine.call body value
          record (.hookReturned id target)
  | _ => return

def notifyAll (engine : Engine α) (id : SolverId) : List VariableId →
    Action α Unit
  | [] => return
  | target :: rest => do
      notify engine id target
      notifyAll engine id rest

/-- One round of hooks. While it lasts, the solver puts work off. If a hook
fails, the work put off so far is dropped. -/
def round (engine : Engine α) (id : SolverId) (targets : List VariableId) :
    Action α Unit := do
  if targets.isEmpty then return
  record (.roundBegan id targets)
  update id fun solver => { solver with dispatching := true }
  let result ← (notifyAll engine id targets).outcome
  match result with
  | .ok () => update id fun solver => { solver with dispatching := false }
  | .error _ =>
      update id fun solver => { solver.dropDeferred with dispatching := false }
  record (.roundEnded id)
  ofOutcome result

/-- Take up deferred work: queued values in order, then a solve if one was asked
for. `taken` items have been taken up before. -/
def drain (engine : Engine α) (id : SolverId) (taken : Nat) :
    Nat → Action α Unit
  | 0 => exhausted
  | patience + 1 => do
      let solver ← solver id
      if solver.deferred.isEmpty && !solver.resolvePending then return
      if solver.settings.cascadeLimit < taken + 1 then
        throw (.cascade solver.settings.cascadeLimit)
      match solver.deferred with
      | (target, value) :: rest =>
          let moved ← edit id do
            Edit.update fun solver => { solver with deferred := rest }
            Edit.note (.valueTaken target value)
            Edit.applyValue target value
          round engine id moved
      | [] =>
          let moved ← edit id do
            Edit.note .solveTaken
            Edit.writeSolution
          round engine id moved
      drain engine id (taken + 1) patience

/-- Process deferred work to the end, unless that is going on already. If it
fails, what is left of it is dropped. -/
def settle (engine : Engine α) (id : SolverId) : Action α Unit := do
  if (← solver id).draining then return
  update id fun solver => { solver with draining := true }
  let result ← (drain engine id 0 engine.patience).outcome
  match result with
  | .ok () => update id fun solver => { solver with draining := false }
  | .error _ =>
      update id fun solver => { solver.dropDeferred with draining := false }
  ofOutcome result

def announce (engine : Engine α) (id : SolverId) (moved : List VariableId) :
    Action α Unit := do
  if moved.isEmpty then return
  round engine id moved
  settle engine id

def perform (engine : Engine α) (id : SolverId)
    (change : Edit α (List VariableId)) :
    Action α Unit := do
  announce engine id (← edit id change)

end Action

end LiveLinear
