import LiveLinear.Proofs.Session.Notifying
import LiveLinear.Proofs.Solver.Unpinning

namespace LiveLinear

/-! # Milestones

How an operation gets from its own edit to the item of deferred work that has
been taken up last, in the worlds that it really passes through: each round of
hooks is the one that the engine runs in the world that it finds there, and
each item is the one that is next in line. -/

variable {α : Type}

namespace World

variable {world : World α} {id : SolverId}
  {property : Table VariableId (Variable α) →
    Table ConstraintId (Constraint α) → Prop}

abbrev Contents (world : World α) (id : SolverId)
    (property : Table VariableId (Variable α) →
      Table ConstraintId (Constraint α) → Prop) : Prop :=
  world.At id fun solver => property solver.unknowns solver.constraints

theorem Contents.change {change : Solver α → Solver α}
    (contents : world.Contents id property)
    (same : ∀ solver, (change solver).unknowns = solver.unknowns ∧
      (change solver).constraints = solver.constraints) :
    (world.change id change).Contents id property := by
  refine At.change contents fun solver holds => ?_
  rw [(same solver).1, (same solver).2]
  exact holds

/-- Two changes are the same where they do the same to the solver. -/
theorem change_congr {first second : Solver α → Solver α}
    (same : ∀ solver, world.solvers[id]? = some solver →
      first solver = second solver) :
    world.change id first = world.change id second := by
  have solvers : (world.change id first).solvers =
      (world.change id second).solvers := by
    apply List.ext_getElem?
    intro other
    rw [getElem?_change, getElem?_change]
    by_cases isIt : id = other
    · subst isIt
      simp only [if_true]
      exact Option.map_congr same
    · simp only [if_neg isIt]
  exact congrArg (fun solvers => { world with solvers }) solvers

end World

def Engine.Layered [Scalar α] (engine : Engine α) : Prop :=
  ∀ body value before result after,
    (engine.call body value).Yields before result after →
      ∃ inner, engine.call body value =
        Action.executeScript inner (some value) body

theorem Engine.ofDepth_layered [Scalar α] (patience depth : Nat) :
    (Engine.ofDepth patience depth : Engine α).Layered := by
  intro body value before result after yields
  cases depth with
  | zero => exact absurd yields Action.yields_exhausted
  | succ depth => exact ⟨.ofDepth patience depth, rfl⟩

namespace Session

/-! ## Turns of a round -/

section Turns

variable {engine : Engine α} {id : SolverId} {after : World α}

/-- What each turn keeps is kept by all of them, whether or not one fails. -/
theorem notifyAll_keeps (property : World α → Prop) {result : Ending α}
    {targets : List VariableId} :
    ∀ {before : World α},
      (∀ turns target rest world outcome last,
        targets = turns.map Prod.fst ++ target :: rest →
        Notifies engine id before turns world →
        (Action.notify engine id target).Yields world outcome last →
        property world → property last) →
      (Action.notifyAll engine id targets).Yields before result after →
      property before → property after := by
  induction targets with
  | nil =>
      intro before _ yields holds
      rw [(Action.yields_pure.mp yields).2]
      exact holds
  | cons target rest induction =>
      intro before keeps yields holds
      have first := fun outcome last =>
        keeps [] target rest before outcome last rfl (.done before)
      rcases Action.yields_bind.mp yields with
        ⟨_, failed, _⟩ | ⟨_, middle, done, later⟩
      · exact first _ _ failed holds
      · refine induction ?_ later (first _ _ done holds)
        intro turns other others world outcome last order notifies
        exact keeps ((target, before) :: turns) other others world outcome last
          (congrArg (List.cons target) order) (.turn done notifies)

variable [Scalar α]

/-- While hooks are called, no variable of the solver moves, and hooks go on
being called. -/
theorem notify_keepsValues (sound : engine.Sound) {written : Solver α}
    {before : World α} {target : VariableId} {result : Ending α}
    (yields : (Action.notify engine id target).Yields before result after)
    (kept : before.At id fun solver =>
      written.KeepsValues solver ∧ solver.dispatching = true) :
    after.At id fun solver =>
      written.KeepsValues solver ∧ solver.dispatching = true := by
  have called : ∀ {event : Event α} {last : World α},
      (before.record event).Hushes last id → last.At id fun solver =>
        written.KeepsValues solver ∧ solver.dispatching = true := by
    intro event last hushes
    rcases kept with ⟨former, found, keeps, dispatching⟩
    rcases hushes ⟨former, found, dispatching⟩ with
      ⟨_, present, later, _, _, isPresent, isLater, keptToo, stillBusy⟩
    change before.solvers[id]? = some present at isPresent
    rw [found] at isPresent
    cases isPresent
    exact ⟨later, isLater, keeps.trans keptToo, stillBusy⟩
  rcases Action.notify_cases sound yields with
    ⟨lost, _, _⟩ | ⟨_, _, ⟨_, _, rfl⟩ | ⟨_, _, _, ⟨_, _, _, runs⟩ | call⟩⟩
  · rcases kept with ⟨_, found, _⟩
    rw [lost] at found
    cases found
  · exact kept
  · exact called (runs.hushes id trivial)
  · rcases call with ⟨middle, _, rfl, _, runs⟩
    have returned := called (runs.hushes id trivial)
    exact returned

/-- However a round ends, no variable has moved. -/
theorem round_keepsValues (sound : engine.Sound) {before : World α}
    {solver : Solver α} {targets : List VariableId} {result : Ending α}
    (found : before.solvers[id]? = some solver)
    (yields : (Action.round engine id targets).Yields before result after) :
    after.At id fun later => solver.KeepsValues later := by
  rcases Action.round_cases yields with
    ⟨_, _, rfl⟩ | ⟨_, middle, calls, closing⟩
  · exact ⟨solver, found, .refl solver⟩
  · have opened := World.getElem?_change_self
      (fun solver : Solver α => { solver with dispatching := true }) (show
        (before.record (.roundBegan id targets)).solvers[id]? = some solver
          from found)
    have kept : middle.At id fun later =>
        solver.KeepsValues later ∧ later.dispatching = true := by
      refine notifyAll_keeps (fun world => world.At id fun later =>
        solver.KeepsValues later ∧ later.dispatching = true) ?_ calls
        ⟨_, opened, .of_unknowns rfl rfl, rfl⟩
      exact fun _ _ _ _ _ _ _ _ turn holds =>
        notify_keepsValues sound turn holds
    have closed : ∀ close : Solver α → Solver α,
        (∀ later : Solver α, later.KeepsValues (close later)) →
          (middle.change id close).At id fun later =>
            solver.KeepsValues later :=
      fun close same => kept.change fun later holds =>
        holds.1.trans (same later)
    rcases closing with ⟨_, rfl⟩ | ⟨_, _, rfl⟩
    · exact closed _ fun _ => .of_unknowns rfl rfl
    · exact closed _ fun _ => .of_unknowns rfl rfl

end Turns

variable [Scalar α]

/-! ## Commands of a hook -/

section Scripts

variable {engine : Engine α} {context : Option α}

/-- In carrying out a script, its turn comes to a command, which finds
`world`. -/
inductive Reaches (engine : Engine α) (context : Option α) :
    Script α → World α → Command α → World α → Prop
  | here (command : Command α) (guarded : Bool) (rest : Script α)
      (start : World α) :
      Reaches engine context (.next command guarded rest) start command start
  | later {command other : Command α} {guarded : Bool} {rest : Script α}
      {outcome : Except (Failure α) (Reply α)}
      (yields : (Action.execute engine context command).Yields start outcome
        middle)
      (goesOn : guarded = false → ∃ reply, outcome = .ok reply)
      (reaches : Reaches engine context rest
        (middle.record (.commandEnded command outcome)) other world) :
      Reaches engine context (.next command guarded rest) start other world

/-- What each command keeps is kept by the script, however it ends. -/
theorem executeScript_keeps (property : World α → Prop)
    (records : ∀ world event, property world → property (world.record event))
    (script : Script α) {before after : World α} {result : Ending α}
    (keeps : ∀ command world outcome last,
      Reaches engine context script before command world →
      (Action.execute engine context command).Yields world outcome last →
      property world → property last)
    (yields : (Action.executeScript engine context script).Yields before result
      after)
    (holds : property before) : property after := by
  cases script with
  | done =>
      rw [(Action.yields_pure.mp yields).2]
      exact holds
  | next command guarded rest =>
      rw [Action.executeScript, Action.yields_outcome_bind] at yields
      rcases yields with ⟨outcome, middle, ran, later⟩
      rw [Action.yields_record_bind] at later
      have kept := records _ (.commandEnded command outcome)
        (keeps _ _ _ _ (.here command guarded rest before) ran holds)
      have goOn : (guarded = false → ∃ reply, outcome = .ok reply) →
          (Action.executeScript engine context rest).Yields
            (middle.record (.commandEnded command outcome)) result after →
          property after := by
        intro goesOn yields
        refine executeScript_keeps property records rest ?_ yields kept
        exact fun other world again last reaches =>
          keeps other world again last (.later ran goesOn reaches)
      cases guarded with
      | true => exact goOn (fun impossible => Bool.noConfusion impossible) later
      | false =>
          cases outcome with
          | error failure =>
              rw [(Action.yields_throw.mp later).2]
              exact kept
          | ok reply => exact goOn (fun _ => ⟨reply, rfl⟩) later
termination_by structural script

end Scripts

/-! ## From milestone to milestone -/

/-- A point in the course of an operation at which an edit has succeeded: its
own one, or the latest of so many items of deferred work. What has moved is
still to be announced. -/
structure Milestone (α : Type) where
  taken : Nat
  moved : List VariableId
  world : World α

namespace Milestone

section Course

variable (engine : Engine α) (id : SolverId) (milestone : Milestone α)

def Turn (target : VariableId) (world : World α) : Prop :=
  ∃ turns rest, milestone.moved = turns.map Prod.fst ++ target :: rest ∧
    Notifies engine id
      ((milestone.world.record (.roundBegan id milestone.moved)).change id
        fun solver => { solver with dispatching := true }) turns world

/-- No hook of the round has failed, and in `world` the solver goes on with
deferred work. -/
structure Told (world : World α) (solver : Solver α) : Prop where
  round : ∃ middle, (Action.round engine id milestone.moved).Yields
    milestone.world (.ok ()) middle ∧
      world = if milestone.taken = 0 then
        middle.change id fun solver => { solver with draining := true }
      else middle
  found : world.solvers[id]? = some solver

structure Attempts (world : World α) (solver : Solver α)
    (work : Edit α (List VariableId)) : Prop
    extends milestone.Told engine id world solver where
  next : solver.nextDeferred = some work
  within : ¬solver.settings.cascadeLimit < milestone.taken + 1

inductive Serves : Milestone α → Prop
  | item {start : World α} {announced : List VariableId}
      (attempts : milestone.Attempts engine id start solver work)
      (yields : work.Yields ⟨solver, []⟩ (.ok announced) draft) :
      Serves ⟨milestone.taken + 1, announced, start.adopt id draft⟩

def Leads (later : Milestone α) : Prop :=
  Relation.ReflTransGen (fun former next => former.Serves engine id next)
    milestone later

/-- The operation stops short of the next milestone, and leaves `broken`. -/
inductive Stops : Failure α → World α → Prop
  /-- A hook has failed. -/
  | raised (fails : (Action.round engine id milestone.moved).Yields
      milestone.world (.error cause) broken) : Stops cause broken
  /-- The value of a variable that is not locked, or a pending solve, goes
  against the constraints. -/
  | refused {start : World α}
      (attempts : milestone.Attempts engine id start solver work)
      (unlocked : solver.NextUnlocked)
      (yields : work.Yields ⟨solver, []⟩ (.error .overConstrained) draft) :
      Stops .overConstrained (start.adopt id draft)
  /-- There is too much work. -/
  | exceeded {last : World α} {solver : Solver α}
      (told : milestone.Told engine id last solver)
      (more : solver.nextDeferred.isSome = true)
      (limit : solver.settings.cascadeLimit < milestone.taken + 1) :
      Stops (.cascade solver.settings.cascadeLimit) last

/-- An item of deferred work fails in some other way. -/
inductive Fails (cause : Failure α) : World α → Prop
  | item {start : World α} {solver : Solver α}
      (attempts : milestone.Attempts engine id start solver work)
      (other : ¬(cause = .overConstrained ∧ solver.NextUnlocked))
      (yields : work.Yields ⟨solver, []⟩ (.error cause) draft) :
      Fails cause (start.adopt id draft)

/-- In the round that follows, a hook called with `value` gets to `command`,
which finds `world`, and which is carried out by `inner`. -/
def Issues (inner : Engine α) (value : α) (command : Command α)
    (world : World α) : Prop :=
  ∃ target start solver hook, milestone.Turn engine id target start ∧
    start.solvers[id]? = some solver ∧
    start.listener solver target = some (hook, value) ∧
    engine.call hook.body value =
      Action.executeScript inner (some value) hook.body ∧
    Reaches inner (some value) hook.body
      (start.record (.hookCalled id target hook.tag value)) command world

/-- From here on, no command of a hook undoes a property of the variables and
constraints. -/
def Spares (property : Table VariableId (Variable α) →
    Table ConstraintId (Constraint α) → Prop) : Prop :=
  ∀ later, milestone.Leads engine id later →
    ∀ inner value command world outcome after,
      later.Issues engine id inner value command world →
      (Action.execute inner (some value) command).Yields world outcome after →
      world.Contents id property → after.Contents id property

/-- From here on, no item of deferred work undoes the property either. -/
structure Respects (property : Table VariableId (Variable α) →
    Table ConstraintId (Constraint α) → Prop) : Prop where
  commands : milestone.Spares engine id property
  items (later : Milestone α) (leads : milestone.Leads engine id later)
    (world : World α) (solver : Solver α) (work : Edit α (List VariableId))
    (moved : List VariableId) (draft : Draft α)
    (attempts : later.Attempts engine id world solver work)
    (yields : work.Yields ⟨solver, []⟩ (.ok moved) draft)
    (holds : property solver.unknowns solver.constraints) :
    property draft.solver.unknowns draft.solver.constraints

end Course

def Stating (held : ConstraintId) (constraint : Constraint α)
    (_ : Table VariableId (Variable α))
    (constraints : Table ConstraintId (Constraint α)) : Prop :=
  constraints.get? held = some constraint

def Locking (target : VariableId) (locked : Bool)
    (unknowns : Table VariableId (Variable α))
    (_ : Table ConstraintId (Constraint α)) : Prop :=
  ((unknowns.get? target).bind Variable.lock).isSome = locked

variable {engine : Engine α} {id : SolverId} {milestone later : Milestone α}
  {world broken : World α} {solver : Solver α} {cause : Failure α}
  {work : Edit α (List VariableId)}
  {property : Table VariableId (Variable α) →
    Table ConstraintId (Constraint α) → Prop}

theorem Leads.trans {final : Milestone α}
    (first : milestone.Leads engine id later)
    (second : later.Leads engine id final) : milestone.Leads engine id final :=
  Relation.ReflTransGen.trans first second

theorem Respects.of_leads (respects : milestone.Respects engine id property)
    (leads : milestone.Leads engine id later) :
    later.Respects engine id property := by
  constructor
  · exact fun final further => respects.commands final (leads.trans further)
  · exact fun final further => respects.items final (leads.trans further)

/-! ## What a round keeps -/

/-- The turn of a variable leaves alone what the commands of its hook do. -/
theorem turn_contents (layered : engine.Layered)
    (respects : milestone.Respects engine id property)
    {target : VariableId} {result : Ending α} {after : World α}
    (turn : milestone.Turn engine id target world)
    (yields : (Action.notify engine id target).Yields world result after)
    (holds : world.Contents id property) : after.Contents id property := by
  have called : ∀ {solver : Solver α} {hook : Hook α} {value : α}
      {ended : Ending α} {last : World α}, world.solvers[id]? = some solver →
      world.listener solver target = some (hook, value) →
      (engine.call hook.body value).Yields
        (world.record (.hookCalled id target hook.tag value)) ended last →
      last.Contents id property := by
    intro solver hook value ended last found listens call
    rcases layered _ _ _ _ _ call with ⟨inner, same⟩
    rw [same] at call
    refine executeScript_keeps (fun world => world.Contents id property)
      (fun _ _ kept => kept) hook.body ?_ call holds
    intro command start outcome between reaches ran kept
    exact respects.commands milestone .refl inner value command start outcome
      between ⟨target, world, solver, hook, turn, found, listens, same, reaches⟩
      ran kept
  rcases Action.notify_turn yields with
    ⟨_, _, rfl⟩ | ⟨solver, found, ⟨_, _, rfl⟩ | ⟨hook, value, listens, call⟩⟩
  · exact holds
  · exact holds
  · rcases call with ⟨_, _, failed⟩ | ⟨middle, _, rfl, done⟩
    · exact called found listens failed
    · have returned := called found listens done
      exact returned

/-- What the hooks leave alone is left, however the round ends. -/
theorem round_contents (layered : engine.Layered)
    (respects : milestone.Respects engine id property) {result : Ending α}
    {after : World α}
    (yields : (Action.round engine id milestone.moved).Yields
      milestone.world result after)
    (holds : milestone.world.Contents id property) :
    after.Contents id property := by
  rcases Action.round_cases yields with
    ⟨_, _, rfl⟩ | ⟨_, middle, calls, closing⟩
  · exact holds
  · have started : ((milestone.world.record
        (.roundBegan id milestone.moved)).change id fun solver =>
          { solver with dispatching := true }).Contents id property :=
      World.Contents.change holds fun _ => ⟨rfl, rfl⟩
    have kept : middle.Contents id property := by
      refine notifyAll_keeps (fun world => world.Contents id property) ?_ calls
        started
      intro turns target rest world outcome last order notifies
      exact turn_contents layered respects ⟨turns, rest, order, notifies⟩
    rcases closing with ⟨_, rfl⟩ | ⟨_, _, rfl⟩
    · exact World.Contents.change kept fun _ => ⟨rfl, rfl⟩
    · exact World.Contents.change kept fun _ => ⟨rfl, rfl⟩

namespace Told

variable (told : milestone.Told engine id world solver)

include told

theorem becomes (sound : engine.Sound) : milestone.world.Becomes world := by
  rcases told.round with ⟨middle, held, rfl⟩
  have round := (Action.runs_round sound held).becomes
  split
  · exact round.trans (.mark fun _ => ⟨rfl, rfl, rfl, rfl⟩)
  · exact round

theorem contents (layered : engine.Layered)
    (respects : milestone.Respects engine id property)
    (holds : milestone.world.Contents id property) :
    world.Contents id property := by
  rcases told.round with ⟨middle, held, rfl⟩
  have kept := round_contents layered respects held holds
  split
  · exact World.Contents.change kept fun _ => ⟨rfl, rfl⟩
  · exact kept

theorem keepsValues (sound : engine.Sound) {written : Solver α}
    (found : milestone.world.solvers[id]? = some written) :
    written.KeepsValues solver := by
  have isThere := told.found
  rcases told.round with ⟨middle, held, rfl⟩
  rcases round_keepsValues sound found held with ⟨later, isLater, kept⟩
  split at isThere
  · rw [World.getElem?_change_self _ isLater] at isThere
    cases isThere
    exact ⟨kept.nextVariable, kept.values⟩
  · rw [isLater] at isThere
    cases isThere
    exact kept

omit [Scalar α] in
theorem unique {other : World α} {same : Solver α}
    (again : milestone.Told engine id other same) :
    other = world ∧ same = solver := by
  rcases told with ⟨⟨middle, held, rfl⟩, found⟩
  rcases again with ⟨⟨between, heldToo, rfl⟩, foundToo⟩
  cases (held.unique heldToo).2
  rw [found] at foundToo
  cases foundToo
  exact ⟨rfl, rfl⟩

end Told

/-! ## What an operation keeps on its way -/

theorem Serves.becomes (sound : engine.Sound)
    (serves : milestone.Serves engine id later) :
    milestone.world.Becomes later.world := by
  cases serves with
  | item attempts yields =>
      have resumed := World.Advances.resumed attempts.found attempts.next yields
      exact (attempts.toTold.becomes sound).trans resumed.becomes

theorem Leads.becomes (sound : engine.Sound)
    (leads : milestone.Leads engine id later) :
    milestone.world.Becomes later.world := by
  induction leads with
  | refl => exact .refl _
  | tail _ serves induction => exact induction.trans (serves.becomes sound)

/-- What no hook and no item undoes holds at each milestone. -/
theorem Leads.contents (layered : engine.Layered)
    (leads : milestone.Leads engine id later)
    (respects : milestone.Respects engine id property)
    (holds : milestone.world.Contents id property) :
    later.world.Contents id property := by
  induction leads with
  | refl => exact holds
  | @tail former next earlier serves induction =>
      cases serves with
      | item attempts yields =>
          rcases attempts.toTold.contents layered (respects.of_leads earlier)
            induction with ⟨present, isPresent, kept⟩
          rw [attempts.found] at isPresent
          cases isPresent
          exact .adopt attempts.found
            (respects.items former earlier _ _ _ _ _ attempts yields kept)

namespace Spares

variable (sound : engine.Sound) (represented : milestone.world.Represented)

include sound represented

theorem respects (spares : milestone.Spares engine id property)
    (items : ∀ (solver : Solver α) (work : Edit α (List VariableId))
      (moved : List VariableId) (draft : Draft α), solver.Represented →
      solver.nextDeferred = some work →
      work.Yields ⟨solver, []⟩ (.ok moved) draft →
      property solver.unknowns solver.constraints →
      property draft.solver.unknowns draft.solver.constraints) :
    milestone.Respects engine id property := by
  refine ⟨spares, ?_⟩
  intro later leads world solver work moved draft attempts yields
  have becomes := (leads.becomes sound).trans (attempts.toTold.becomes sound)
  exact items solver work moved draft
    (becomes.represented represented id solver attempts.found) attempts.next
    yields

theorem respects_stating {held : ConstraintId} {constraint : Constraint α}
    (stated : constraint.origin = .stated)
    (spares : milestone.Spares engine id (Stating held constraint)) :
    milestone.Respects engine id (Stating held constraint) :=
  spares.respects sound represented
    fun _ _ _ _ represented next yields found =>
      Solver.keepsStated_of_nextDeferred represented next yields held constraint
        stated found

theorem respects_locking {target : VariableId} {locked : Bool}
    (spares : milestone.Spares engine id (Locking target locked)) :
    milestone.Respects engine id (Locking target locked) :=
  spares.respects sound represented
    fun _ _ _ _ represented next yields isSome =>
      (Solver.keepsLocks_of_nextDeferred represented.coherent next yields
        target).trans isSome

end Spares

namespace Stops

variable (stops : milestone.Stops engine id cause broken)

include stops

/-- What is refused leaves variables and constraints as they were. -/
theorem intact (represented : milestone.world.Represented)
    (sound : engine.Sound) (told : milestone.Told engine id world solver) :
    broken.At id fun stopped => stopped.unknowns = solver.unknowns ∧
      stopped.constraints = solver.constraints := by
  have coherent : solver.Coherent :=
    ((told.becomes sound).represented represented id solver told.found).coherent
  cases stops with
  | raised fails =>
      rcases told.round with ⟨_, held, _⟩
      cases (held.unique fails).1
  | refused attempts unlocked yields =>
      rcases told.unique attempts.toTold with ⟨rfl, rfl⟩
      exact .adopt attempts.found
        ⟨Solver.unknowns_of_nextDeferred coherent unlocked attempts.next yields,
          Solver.constraints_of_nextDeferred coherent unlocked attempts.next
            yields⟩
  | exceeded toldToo _ _ =>
      rcases told.unique toldToo with ⟨rfl, rfl⟩
      exact ⟨_, told.found, rfl, rfl⟩

theorem raised_or_told :
    (Action.round engine id milestone.moved).Yields milestone.world
        (.error cause) broken ∨
      ∃ world solver, milestone.Told engine id world solver := by
  cases stops with
  | raised fails => exact .inl fails
  | refused attempts _ _ => exact .inr ⟨_, _, attempts.toTold⟩
  | exceeded told _ _ => exact .inr ⟨_, _, told⟩

theorem contents (sound : engine.Sound) (layered : engine.Layered)
    (represented : milestone.world.Represented)
    (respects : milestone.Respects engine id property)
    (holds : milestone.world.Contents id property) :
    broken.Contents id property := by
  rcases stops.raised_or_told with fails | ⟨world, solver, told⟩
  · exact round_contents layered respects fails holds
  · rcases told.contents layered respects holds with ⟨same, isSame, kept⟩
    rw [told.found] at isSame
    cases isSame
    refine (stops.intact represented sound told).imp fun stopped same => ?_
    rw [same.1, same.2]
    exact kept

theorem keepsValues (sound : engine.Sound)
    (represented : milestone.world.Represented)
    (found : milestone.world.solvers[id]? = some solver) :
    broken.At id fun stopped => ∀ target value,
      stopped.value? target = some value →
        solver.value? target = some value ∨ solver.nextVariable ≤ target := by
  rcases stops.raised_or_told with fails | ⟨world, last, told⟩
  · exact (round_keepsValues sound found fails).imp fun _ kept => kept.values
  · have kept := told.keepsValues sound found
    refine (stops.intact represented sound told).imp ?_
    intro stopped same target value present
    apply kept.values
    rw [Solver.value?, ← same.1]
    exact present

end Stops

/-- Whatever fails, it locks and unlocks nothing. -/
theorem keepsLocks (sound : engine.Sound)
    (represented : milestone.world.Represented)
    (broke : milestone.Stops engine id cause broken ∨
      milestone.Fails engine id cause broken)
    (told : milestone.Told engine id world solver) :
    broken.At id fun stopped => solver.KeepsLocks stopped := by
  have coherent : solver.Coherent :=
    ((told.becomes sound).represented represented id solver told.found).coherent
  rcases broke with stops | fails
  · cases stops with
    | raised fails =>
        rcases told.round with ⟨_, held, _⟩
        cases (held.unique fails).1
    | refused attempts _ yields =>
        rcases told.unique attempts.toTold with ⟨rfl, rfl⟩
        exact .adopt attempts.found
          (Solver.keepsLocks_of_nextDeferred coherent attempts.next yields)
    | exceeded toldToo _ _ =>
        rcases told.unique toldToo with ⟨rfl, rfl⟩
        exact ⟨_, told.found, .refl _⟩
  · rcases fails with ⟨attempts, _, yields⟩
    rcases told.unique attempts.toTold with ⟨rfl, rfl⟩
    exact .adopt attempts.found
      (Solver.keepsLocks_of_nextDeferred coherent attempts.next yields)

end Milestone

end Session

end LiveLinear
