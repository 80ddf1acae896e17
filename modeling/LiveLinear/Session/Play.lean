import LiveLinear.Session.Run

namespace LiveLinear

/-! # Sessions

A session is a list of commands, carried out one after another on a world that
starts empty. A command that fails does not end the session. -/

def Engine.ofDepth [Scalar α] (patience : Nat) : Nat → Engine α
  | 0 => ⟨fun _ _ => Action.exhausted, patience⟩
  | depth + 1 =>
      ⟨fun body value =>
        Action.executeScript (ofDepth patience depth) (some value) body,
        patience⟩

namespace Session

structure Step (α : Type) where
  outcome : Except (Failure α) (Reply α)
  events : List (Event α)
  world : World α

variable {α : Type} [Scalar α]

def step (engine : Engine α) (world : World α) (command : Command α) :
    Option (Step α) :=
  ((Action.execute engine none command).run.run world).map
    fun (outcome, after) =>
      { outcome
        events := (after.history.take
          (after.history.length - world.history.length)).reverse
        world := after }

/-- Carry out commands one after another, each whether or not the one before
failed. -/
def play (engine : Engine α) (world : World α) : List (Command α) →
    List (Step α)
  | [] => []
  | command :: rest =>
      match step engine world command with
      | none => []
      | some done => done :: play engine done.world rest

def patience : Nat := 1000000

/-- How deep hooks may call each other. No solver calls two hooks at a time, so
that many solvers would have to be at work. -/
def depth : Nat := 1000

def run (commands : List (Command α)) : List (Step α) :=
  play (.ofDepth patience depth) .empty commands

def labelled (world : World α) : List (String × Solver α) :=
  world.labels.solvers.entries.filterMap fun (label, id) =>
    world.solvers[id]?.map fun solver => (label, solver)

end Session

end LiveLinear
