import LiveLinear.Proofs.Session.Calling
import LiveLinear.Proofs.Session.Reached
import LiveLinear.Proofs.Session.Ways
import LiveLinear.Proofs.Solver.Moving

namespace LiveLinear

/-! # Rounds of hooks

Whatever happens, it goes on step by step, where a round begins and ends
together with the mark that keeps its solver from solving. So the mark says
where the history stands, and a hook is called only between two others of its
round. -/

variable {α : Type}

namespace World

def dispatches (world : World α) (id : SolverId) : Bool :=
  (world.solvers[id]?.map Solver.dispatching).getD false

def InStep (world : World α) : Prop :=
  ∀ id, Event.Admitted id world.history ∧
    (world.dispatches id = true ↔ Calling.of id world.history ≠ .nobody)

section Marks

variable {world before after : World α} {id : SolverId} {solver : Solver α}

theorem dispatches_of_some (found : world.solvers[id]? = some solver) :
    world.dispatches id = solver.dispatching := by
  rw [dispatches, found]
  rfl

theorem value?_of_listener {target : VariableId} {hook : Hook α} {value : α}
    (listens : world.listener solver target = some (hook, value)) :
    solver.value? target = some value := by
  unfold World.listener at listens
  simp only [Option.bind_eq_bind, Option.bind_eq_some_iff] at listens
  rcases listens with ⟨contents, isContents, _, _, _, _, isPair⟩
  cases isPair
  rw [Solver.value?, isContents]
  rfl

theorem dispatches_change (world : World α) (id other : SolverId)
    (change : Solver α → Solver α) :
    (world.change id change).dispatches other =
      (world.solvers[other]?.map fun solver =>
        if id = other then (change solver).dispatching
        else solver.dispatching).getD false := by
  rw [dispatches, getElem?_change, Option.map_map]
  congr 2
  funext solver
  simp only [Function.comp_apply]
  split <;> rfl

theorem dispatches_change_of_same {change : Solver α → Solver α}
    (same : ∀ solver : Solver α,
      (change solver).dispatching = solver.dispatching)
    (other : SolverId) :
    (world.change id change).dispatches other = world.dispatches other := by
  rw [dispatches_change, dispatches]
  simp only [same, ite_self]

theorem dispatches_change_of_ne {change : Solver α → Solver α}
    {other : SolverId} (different : id ≠ other) :
    (world.change id change).dispatches other = world.dispatches other := by
  rw [dispatches, getElem?_change_of_ne change different, dispatches]

theorem dispatches_adopt {draft : Draft α}
    (found : world.solvers[id]? = some solver)
    (same : draft.solver.dispatching = solver.dispatching) (other : SolverId) :
    (world.adopt id draft).dispatches other = world.dispatches other := by
  by_cases isSelf : id = other
  · subst other
    rw [dispatches_of_some (getElem?_adopt_self draft found),
      dispatches_of_some found, same]
  · rw [dispatches, getElem?_adopt_of_ne draft isSelf, dispatches]

theorem dispatches_addSolver (settings : Settings α) (other : SolverId) :
    (world.addSolver settings).dispatches other = world.dispatches other := by
  unfold dispatches
  cases found : world.solvers[other]? with
  | some solver => rw [getElem?_addSolver_of_some found]
  | none =>
      cases new : (world.addSolver settings).solvers[other]? with
      | none => rfl
      | some solver =>
          rcases getElem?_addSolver_cases new with old | rfl
          · rw [found] at old
            cases old
          · rfl

namespace InStep

theorem empty : (World.empty : World α).InStep := by
  intro id
  refine ⟨trivial, ?_⟩
  simp [dispatches, World.empty, Calling.of]

theorem of_same (inStep : before.InStep)
    (history : after.history = before.history)
    (same : ∀ id, after.dispatches id = before.dispatches id) :
    after.InStep := by
  intro id
  rw [history, same]
  exact inStep id

theorem record {event : Event α} (inStep : world.InStep)
    (admitted : ∀ id, (Calling.of id world.history).Admits id event)
    (open_ : ∀ id, (Calling.of id world.history).next id event = .nobody ↔
      Calling.of id world.history = .nobody) : (world.record event).InStep := by
  intro id
  refine ⟨⟨admitted id, (inStep id).1⟩, (inStep id).2.trans ?_⟩
  exact not_congr (open_ id).symm

theorem adopt {draft : Draft α} (inStep : world.InStep)
    (found : world.solvers[id]? = some solver)
    (same : draft.solver.dispatching = solver.dispatching) :
    (world.adopt id draft).InStep := by
  intro other
  rw [dispatches_adopt found same]
  refine ⟨Event.admitted_noted.mpr (inStep other).1, (inStep other).2.trans ?_⟩
  rw [World.adopt, Event.calling_noted]

theorem calling_eq (inStep : world.InStep)
    (idle : world.dispatches id = false) :
    Calling.of id world.history = .nobody := by
  by_contra calls
  rw [(inStep id).2.mpr calls] at idle
  cases idle

end InStep

end Marks

/-! ## Steps -/

variable [Scalar α]

/-- One step. A solver begins a round only outside of rounds, and calls a hook
only between two calls of its round. -/
inductive Proceeds : World α → World α → Prop
  | relabelled (like : before.Like after) : Proceeds before after
  | ended (command : Command α) (outcome : Except (Failure α) (Reply α)) :
      Proceeds world (world.record (.commandEnded command outcome))
  | founded (settings : Settings α) : Proceeds world (world.addSolver settings)
  | defined (tag : String) (body : Script α) :
      Proceeds world (world.addHook tag body)
  /-- A solver gets other settings, or the taking up of deferred work begins or
  ends. -/
  | marked {id} {change : Solver α → Solver α}
      (same : ∀ solver : Solver α, solver.SameContents (change solver))
      (phase : ∀ solver : Solver α,
        (change solver).dispatching = solver.dispatching) :
      Proceeds world (world.change id change)
  | worked {id} {task : Task α} (found : world.solvers[id]? = some solver)
      (yields : task.edit.Yields ⟨solver, []⟩ result draft) :
      Proceeds world (world.adopt id draft)
  /-- A solver takes up deferred work, outside of rounds. -/
  | resumed {id} (found : world.solvers[id]? = some solver)
      (idle : solver.dispatching = false)
      (next : solver.nextDeferred = some work)
      (yields : work.Yields ⟨solver, []⟩ result draft) :
      Proceeds world (world.adopt id draft)
  | began {id} (found : world.solvers[id]? = some solver)
      (idle : solver.dispatching = false) (lists : solver.Lists targets) :
      Proceeds world
        ((world.record (.roundBegan id targets)).change id
          fun solver => { solver with dispatching := true })
  /-- A hook is called with the value that its variable has. -/
  | called {id} (found : world.solvers[id]? = some solver)
      (listens : world.listener solver target = some (hook, value))
      (between : Calling.of id world.history = .between waiting)
      (isWaiting : target ∈ waiting) :
      Proceeds world (world.record (.hookCalled id target hook.tag value))
  | returned {id}
      (inside : Calling.of id world.history = .inside target waiting) :
      Proceeds world (world.record (.hookReturned id target))
  | closed {id} {close : Solver α → Solver α}
      (same : ∀ solver : Solver α, solver.SameContents (close solver))
      (closes : ∀ solver : Solver α, (close solver).dispatching = false) :
      Proceeds world ((world.change id close).record (.roundEnded id))

variable {world before middle after : World α}

theorem Proceeds.inStep (proceeds : before.Proceeds after)
    (inStep : before.InStep) : after.InStep := by
  cases proceeds with
  | relabelled like =>
      refine inStep.of_same like.history fun id => ?_
      rw [dispatches, dispatches, like.solvers]
  | ended => exact inStep.record (fun _ => trivial) fun _ => Iff.rfl
  | founded settings => exact inStep.of_same rfl (dispatches_addSolver settings)
  | defined => exact inStep.of_same rfl fun _ => rfl
  | marked _ phase => exact inStep.of_same rfl (dispatches_change_of_same phase)
  | worked found yields =>
      exact inStep.adopt found (Task.edit_steady _ _ _ _ yields).dispatching
  | resumed found _ next yields =>
      exact inStep.adopt found
        (Solver.takes_of_nextDeferred next yields).dispatching
  | @began _ solver targets begun found idle lists =>
      have nobody := inStep.calling_eq ((dispatches_of_some found).trans idle)
      intro other
      refine ⟨⟨?_, (inStep other).1⟩, ?_⟩
      · rintro rfl
        exact ⟨nobody, lists.1⟩
      · show _ ↔
          (Calling.of other before.history).next other
          (.roundBegan begun targets) ≠ _
        by_cases same : begun = other
        · subst other
          rw [dispatches_change]
          simp [World.record, found, Calling.next]
        · rw [dispatches_change_of_ne same, Calling.next, if_neg same]
          exact (inStep other).2
  | called _ _ between isWaiting =>
      refine inStep.record ?_ ?_
      · rintro other rfl
        exact ⟨_, between, isWaiting⟩
      · intro other
        rw [Calling.next]
        split
        · next same =>
            subst other
            simp [between]
        · rfl
  | returned inside =>
      refine inStep.record ?_ ?_
      · rintro other rfl
        exact ⟨_, inside⟩
      · intro other
        rw [Calling.next]
        split
        · next same =>
            subst other
            simp [inside]
        · rfl
  | @closed _ closing close _ closes =>
      intro other
      refine ⟨⟨trivial, (inStep other).1⟩, ?_⟩
      show (before.change closing close).dispatches other = true ↔
        (Calling.of other before.history).next other (.roundEnded closing) ≠ _
      by_cases same : closing = other
      · subst other
        rw [dispatches_change]
        cases before.solvers[closing]? <;> simp [closes, Calling.next]
      · rw [dispatches_change_of_ne same, Calling.next, if_neg same]
        exact (inStep other).2

def Passes : World α → World α → Prop :=
  Relation.ReflTransGen Proceeds

theorem Proceeds.passes (proceeds : before.Proceeds after) :
    before.Passes after :=
  Relation.ReflTransGen.single proceeds

theorem Passes.refl (world : World α) : world.Passes world :=
  Relation.ReflTransGen.refl

theorem Passes.trans (left : before.Passes middle)
    (right : middle.Passes after) :
    before.Passes after :=
  Relation.ReflTransGen.trans left right

theorem Passes.inStep (passes : before.Passes after) (inStep : before.InStep) :
    after.InStep := by
  induction passes with
  | refl => exact inStep
  | tail _ proceeds induction => exact proceeds.inStep induction

end World

/-! ## Worlds that are fit -/

structure World.Fit (world : World α) : Prop where
  inStep : world.InStep
  coherent : world.Coherent

structure World.Stays [Scalar α] (before after : World α) : Prop where
  passes : before.Passes after
  fit : after.Fit
  stands (id : SolverId) :
    Calling.of id after.history = Calling.of id before.history

namespace World

variable {world before middle after : World α} {id : SolverId}

theorem dispatches_of_at {property : Solver α → Prop}
    (one : world.At id fun solver => solver.dispatching = false ∧
      property solver) :
    world.dispatches id = false := by
  rcases one with ⟨solver, found, idle, _⟩
  exact (dispatches_of_some found).trans idle

namespace Stays

variable [Scalar α]

theorem refl (fit : world.Fit) : world.Stays world :=
  ⟨.refl world, fit, fun _ => rfl⟩

theorem trans (first : before.Stays middle) (later : middle.Stays after) :
    before.Stays after :=
  ⟨first.passes.trans later.passes, later.fit,
    fun id => (later.stands id).trans (first.stands id)⟩

theorem of_proceeds (proceeds : before.Proceeds after) (fit : before.Fit)
    (coherent : after.Coherent)
    (stands : ∀ id,
      Calling.of id after.history = Calling.of id before.history) :
    before.Stays after :=
  ⟨proceeds.passes, ⟨proceeds.inStep fit.inStep, coherent⟩, stands⟩

theorem of_like (like : before.Like after) (fit : before.Fit) :
    before.Stays after :=
  .of_proceeds (.relabelled like) fit (World.Each.of_like fit.coherent like)
    fun _ => congrArg (Calling.of _) like.history

theorem addSolver {settings : Settings α} (fit : world.Fit) :
    world.Stays (world.addSolver settings) :=
  .of_proceeds (.founded settings) fit
    (World.Each.addSolver fit.coherent fun id =>
      Solver.coherent_empty id settings) fun _ => rfl

theorem addHook (tag : String) (body : Script α) (fit : world.Fit) :
    world.Stays (world.addHook tag body) :=
  .of_proceeds (.defined tag body) fit fit.coherent fun _ => rfl

theorem ended {command : Command α} {outcome : Except (Failure α) (Reply α)}
    (fit : world.Fit) :
    world.Stays (world.record (.commandEnded command outcome)) :=
  .of_proceeds (.ended command outcome) fit fit.coherent fun _ => rfl

theorem change {change : Solver α → Solver α} (fit : world.Fit)
    (same : ∀ solver : Solver α, solver.SameContents (change solver))
    (phase : ∀ solver : Solver α,
      (change solver).dispatching = solver.dispatching) :
    world.Stays (world.change id change) :=
  .of_proceeds (.marked same phase) fit
    (World.Coherent.change fit.coherent fun solver holds =>
      holds.of_sameContents (same solver)) fun _ => rfl

theorem setSettings {change : Settings α → Settings α} (fit : world.Fit) :
    world.Stays (world.change id fun solver => solver.setSettings change) :=
  .change fit (fun _ => ⟨rfl, rfl, rfl, rfl⟩) fun _ => rfl

theorem worked {task : Task α} {solver : Solver α} {draft : Draft α}
    {result : Except (Failure α) (List VariableId)} (fit : world.Fit)
    (found : world.solvers[id]? = some solver)
    (yields : task.edit.Yields ⟨solver, []⟩ result draft) :
    world.Stays (world.adopt id draft) :=
  .of_proceeds (.worked found yields) fit
    (World.Coherent.adopt fit.coherent found
      (Task.edit_coheres _ _ _ _ yields)) fun _ => Event.calling_noted ..

theorem served {work : Edit α (List VariableId)} {solver : Solver α}
    {draft : Draft α} {result : Except (Failure α) (List VariableId)}
    (fit : world.Fit) (ready : world.dispatches id = false)
    (found : world.solvers[id]? = some solver)
    (next : solver.nextDeferred = some work)
    (yields : work.Yields ⟨solver, []⟩ result draft) :
    world.Stays (world.adopt id draft) := by
  have idle := (dispatches_of_some found).symm.trans ready
  refine .of_proceeds (.resumed found idle next yields) fit ?_
    fun _ => Event.calling_noted ..
  exact World.Coherent.adopt fit.coherent found fun holds =>
    Solver.coherent_of_nextDeferred holds next yields

theorem idle (stays : before.Stays after) (fit : before.Fit)
    (idle : before.dispatches id = false) : after.dispatches id = false := by
  rw [Bool.eq_false_iff, ne_eq, (stays.fit.inStep id).2, not_not,
    stays.stands id]
  exact fit.inStep.calling_eq idle

end Stays

end World

/-! ## Activities go on step by step -/

namespace Activity

/-- What an activity needs to find. -/
def Ready (before : World α) : Activity α → Prop
  | .announcement id moved =>
      moved ≠ [] → before.At id fun solver => solver.dispatching = false ∧
        solver.Lists moved
  | .round id targets =>
      before.At id fun solver => solver.dispatching = false ∧
        solver.Lists targets
  | .calls id targets => ∃ waiting,
      Calling.of id before.history = .between waiting ∧ targets.Sublist waiting
  | .settlement id => before.dispatches id = false
  | .drain id _ => before.dispatches id = false
  | _ => True

def calling? : Activity α → Option SolverId
  | .calls id _ => some id
  | _ => none

theorem Ready.of_like {activity : Activity α} {before after : World α}
    (ready : activity.Ready before) (like : before.Like after) :
    activity.Ready after := by
  have sameMark : ∀ id, after.dispatches id = before.dispatches id :=
      fun id => by
    rw [World.dispatches, World.dispatches, like.solvers]
  cases activity with
  | announcement id moved => exact fun some => (ready some).of_like like
  | round id targets => exact World.At.of_like ready like
  | calls id targets =>
      rw [Ready, like.history]
      exact ready
  | settlement id => exact (sameMark id).trans ready
  | drain id taken => exact (sameMark id).trans ready
  | command | script | task => trivial

/-- How an activity goes on: step by step, and in the end solvers stand where
they stood before, but for one whose hooks are being called. -/
structure Goes [Scalar α] (known : Calls α) (before : World α)
    (result : Ending α) (after : World α) (activity : Activity α) : Prop where
  along : activity.Along World.Proceeds known before result after
  fit : after.Fit
  others (id : SolverId) (other : activity.calling? ≠ some id) :
    Calling.of id after.history = Calling.of id before.history
  busy (id : SolverId) (calls : activity.calling? = some id) :
    Calling.of id after.history ≠ .nobody

end Activity

section Going

variable [Scalar α] {known : Activity.Calls α}
  {before start middle next final after : World α}
  {first second activity : Activity α} {outcome result : Ending α}
  {id : SolverId}

namespace Activity.Goes

theorem stays (goes : activity.Goes known before result after)
    (none : activity.calling? = none) : before.Stays after :=
  ⟨goes.along.steps, goes.fit, fun id => goes.others id (by simp [none])⟩

theorem of_stays
    (along : activity.Along World.Proceeds known before result after)
    (stays : before.Stays after) (none : activity.calling? = none) :
    activity.Goes known before result after :=
  ⟨along, stays.fit, fun id _ => stays.stands id,
    fun _ calls => nomatch none.symm.trans calls⟩

theorem leaf (stays : before.Stays after) (none : activity.calling? = none)
    (rule : ∀ more, activity.RunsWith more before result after) :
    activity.Goes known before result after :=
  .of_stays (.leaf stays.passes rule) stays none

theorem part (goes : first.Goes known start outcome final)
    (begins : before.Stays start) (ends : final.Stays after)
    (inner : first.calling? = none) (outer : activity.calling? = none)
    (rule : ∀ more, first.RunsWith more start outcome final →
      activity.RunsWith more before result after) :
    activity.Goes known before result after :=
  .of_stays (goes.along.part begins.passes ends.passes rule)
    ((begins.trans (goes.stays inner)).trans ends) outer

theorem parts (goes : first.Goes known start outcome middle)
    (later : second.Goes known next result after) (begins : before.Stays start)
    (between : middle.Stays next) (inner : first.calling? = none)
    (last : second.calling? = none) (outer : activity.calling? = none)
    (rule : ∀ more, first.RunsWith more start outcome middle →
      second.RunsWith more next result after →
      activity.RunsWith more before result after) :
    activity.Goes known before result after :=
  .of_stays (goes.along.parts later.along begins.passes between.passes rule)
    (((begins.trans (goes.stays inner)).trans between).trans (later.stays last))
    outer

theorem of_like (goes : activity.Goes known start result final)
    (ready : before.Like start) (done : final.Like after) :
    activity.Goes known before result after := by
  refine ⟨goes.along.part (.single (.relabelled ready))
      (.single (.relabelled done)) fun _ runs => .relabelled ready runs done,
    (World.Stays.of_like done goes.fit).fit, fun id other => ?_,
    fun id calls => ?_⟩
  · rw [done.history, goes.others id other, ready.history]
  · rw [done.history]
    exact goes.busy id calls

end Activity.Goes

theorem Activity.Over.goes (isOver : activity.Over before result)
    (fit : before.Fit) (ready : activity.Ready before) :
    activity.Goes known before result before := by
  refine ⟨.leaf .refl fun _ => .atOnce isOver, fit, fun _ _ => rfl, ?_⟩
  intro id calls
  cases activity with
  | calls other targets =>
      cases calls
      rcases ready with ⟨waiting, between, _⟩
      simp [between]
  | _ => cases calls

/-- A round goes from its beginning to its end. -/
theorem Activity.Goes.round {targets : List VariableId}
    {close : Solver α → Solver α} (fit : before.Fit)
    (ready : Activity.Ready before (.round id targets))
    (same : ∀ solver : Solver α, solver.SameContents (close solver))
    (closes : ∀ solver : Solver α, (close solver).dispatching = false)
    (calls : World.Fit ((before.record (.roundBegan id targets)).change id
        fun solver => { solver with dispatching := true }) →
      Activity.Ready ((before.record (.roundBegan id targets)).change id
        fun solver => { solver with dispatching := true }) (.calls id targets) →
      (Activity.calls id targets).Goes known
        ((before.record (.roundBegan id targets)).change id
          fun solver => { solver with dispatching := true }) result after)
    (rule : ∀ more, (Activity.calls id targets).RunsWith more
        ((before.record (.roundBegan id targets)).change id
          fun solver => { solver with dispatching := true }) result after →
      (Activity.round id targets).RunsWith more before result
        ((after.change id close).record (.roundEnded id))) :
    (Activity.round id targets).Goes known before result
      ((after.change id close).record (.roundEnded id)) := by
  rcases ready with ⟨solver, found, idle, lists⟩
  have begins := World.Proceeds.began found idle lists
  have coherent : World.Coherent
      ((before.record (.roundBegan id targets)).change id
        fun solver => { solver with dispatching := true }) :=
    World.Coherent.change fit.coherent fun _ holds => holds
  have goes := calls ⟨begins.inStep fit.inStep, coherent⟩
    ⟨targets, if_pos rfl, List.Sublist.refl _⟩
  have ends :
      after.Proceeds ((after.change id close).record (.roundEnded id)) :=
    .closed same closes
  have fitAfter : World.Fit ((after.change id close).record (.roundEnded id)) :=
    ⟨ends.inStep goes.fit.inStep, World.Coherent.change goes.fit.coherent
      fun solver holds => holds.of_sameContents (same solver)⟩
  refine ⟨goes.along.part begins.passes ends.passes rule, fitAfter, ?_, nofun⟩
  intro other _
  show (Calling.of other after.history).next other (.roundEnded id) = _
  by_cases isSelf : id = other
  · subst other
    rw [Calling.next, if_pos rfl,
      fit.inStep.calling_eq ((World.dispatches_of_some found).trans idle)]
  · rw [Calling.next, if_neg isSelf,
      goes.others other fun same => isSelf (Option.some.inj same)]
    exact if_neg isSelf

theorem Activity.Ready.served {solver : Solver α} {draft : Draft α}
    {work : Edit α (List VariableId)} {moved : List VariableId}
    (fit : before.Fit) (ready : before.dispatches id = false)
    (found : before.solvers[id]? = some solver)
    (next : solver.nextDeferred = some work)
    (yields : work.Yields ⟨solver, []⟩ (.ok moved) draft) :
    Activity.Ready (before.adopt id draft) (.round id moved) := by
  have idle := (World.dispatches_of_some found).symm.trans ready
  have takes := Solver.takes_of_nextDeferred next yields
  exact .adopt found ⟨takes.dispatching.trans idle,
    Solver.lists_of_nextDeferred (fit.coherent _ _ found) next yields⟩

/-- A hook is called within a round, and fails. -/
theorem Activity.Goes.callFailed {solver : Solver α} {target : VariableId}
    {rest : List VariableId} {hook : Hook α} {value : α} {cause : Failure α}
    (fit : before.Fit)
    (ready : Activity.Ready before (.calls id (target :: rest)))
    (found : before.solvers[id]? = some solver)
    (listens : before.listener solver target = some (hook, value))
    (call : World.Fit (before.record (.hookCalled id target hook.tag value)) →
      (Activity.script (some value) hook.body).Goes known
        (before.record (.hookCalled id target hook.tag value)) (.error cause)
        after)
    (holds : known hook.body value
      (before.record (.hookCalled id target hook.tag value)) (.error cause)
      after) :
    (Activity.calls id (target :: rest)).Goes known before (.error cause)
      after := by
  rcases ready with ⟨waiting, between, sublist⟩
  have calls := World.Proceeds.called found listens between
    (sublist.subset List.mem_cons_self)
  have goes := call ⟨calls.inStep fit.inStep, fit.coherent⟩
  have stands := (goes.stays rfl).stands
  refine ⟨(goes.along.call calls holds).part .refl .refl fun _ runs =>
    .callFailed found listens runs.1 runs.2, goes.fit, ?_, ?_⟩
  · intro other different
    exact (stands other).trans
      (if_neg fun same => different (congrArg some same))
  · rintro _ ⟨⟩
    rw [stands, World.record, Calling.of, Calling.next, if_pos rfl]
    simp

/-- A hook is called within a round, and the next ones after it has returned. -/
theorem Activity.Goes.called {solver : Solver α} {target : VariableId}
    {rest : List VariableId} {hook : Hook α} {value : α}
    (fit : before.Fit)
    (ready : Activity.Ready before (.calls id (target :: rest)))
    (found : before.solvers[id]? = some solver)
    (listens : before.listener solver target = some (hook, value))
    (call : World.Fit (before.record (.hookCalled id target hook.tag value)) →
      (Activity.script (some value) hook.body).Goes known
        (before.record (.hookCalled id target hook.tag value)) (.ok ()) middle)
    (holds : known hook.body value
      (before.record (.hookCalled id target hook.tag value)) (.ok ()) middle)
    (later : World.Fit (middle.record (.hookReturned id target)) →
      Activity.Ready (middle.record (.hookReturned id target))
        (.calls id rest) →
      (Activity.calls id rest).Goes known
        (middle.record (.hookReturned id target)) result after) :
    (Activity.calls id (target :: rest)).Goes known before result after := by
  rcases ready with ⟨waiting, between, sublist⟩
  have calls := World.Proceeds.called found listens between
    (sublist.subset List.mem_cons_self)
  have goes := call ⟨calls.inStep fit.inStep, fit.coherent⟩
  have stands := (goes.stays rfl).stands
  have inside : Calling.of id middle.history =
      .inside target (waiting.erase target) := by
    rw [stands, World.record, Calling.of, between]
    exact if_pos rfl
  have returns := World.Proceeds.returned inside
  have between' :
      Calling.of id (middle.record (.hookReturned id target)).history =
        .between (waiting.erase target) := by
    rw [World.record, Calling.of, inside]
    exact if_pos rfl
  have remaining := sublist.erase target
  rw [List.erase_cons_head] at remaining
  have more := later ⟨returns.inStep goes.fit.inStep, goes.fit.coherent⟩
    ⟨_, between', remaining⟩
  refine ⟨(goes.along.call calls holds).parts more.along .refl returns.passes
    fun _ runs later => .called found listens runs.1 runs.2 later,
    more.fit, fun other different => ?_, more.busy⟩
  have isOther : ¬id = other := fun same => different (congrArg some same)
  exact ((more.others other different).trans (if_neg isOther)).trans
    ((stands other).trans (if_neg isOther))

/-- Deferred work is taken up between two marks. -/
theorem Activity.Goes.settlement {close : Solver α → Solver α}
    (fit : before.Fit) (ready : before.dispatches id = false)
    (same : ∀ solver : Solver α, solver.SameContents (close solver))
    (phase : ∀ solver : Solver α,
      (close solver).dispatching = solver.dispatching)
    (drains : World.Fit (before.change id
        fun solver => { solver with draining := true }) →
      Activity.Ready (before.change id
        fun solver => { solver with draining := true }) (.drain id 0) →
      (Activity.drain id 0).Goes known (before.change id
        fun solver => { solver with draining := true }) result after)
    (rule : ∀ more, (Activity.drain id 0).RunsWith more (before.change id
        fun solver => { solver with draining := true }) result after →
      (Activity.settlement id).RunsWith more before result
        (after.change id close)) :
    (Activity.settlement id).Goes known before result
      (after.change id close) := by
  have begins : before.Stays (before.change id
      fun solver => { solver with draining := true }) :=
    .change fit (fun _ => ⟨rfl, rfl, rfl, rfl⟩) fun _ => rfl
  have goes := drains begins.fit (begins.idle fit ready)
  exact goes.part begins (.change goes.fit same phase) rfl rfl rule

end Going

/-- Whatever the activity, it goes on step by step. -/
theorem Activity.RunsWith.goes [Scalar α] {known : Activity.Calls α}
    {activity : Activity α} {before after : World α} {result : Ending α}
    (runs : activity.RunsWith known before result after) :
    before.Fit → activity.Ready before →
      activity.Goes known before result after := by
  induction runs with
  | relabelled ready _ done induction =>
      exact fun fit isReady => (induction (World.Stays.of_like ready fit).fit
        (isReady.of_like ready)).of_like ready done
  | atOnce isOver => exact isOver.goes
  | founded founds =>
      exact fun fit _ => .leaf (.addSolver fit) rfl fun _ => .founded founds
  | changed makes =>
      exact fun fit _ => .leaf (.setSettings fit) rfl fun _ => .changed makes
  | defined => exact fun fit _ => .leaf (.addHook _ _ fit) rfl fun _ => .defined
  | asked asks _ induction =>
      exact fun fit _ => (induction fit trivial).part (.refl fit)
        (.refl (induction fit trivial).fit) rfl rfl fun _ => .asked asks
  | @observed _ _ _ _ subject body _ _ _ induction =>
      intro fit _
      have begins := World.Stays.addHook subject body fit
      have goes := induction begins.fit trivial
      exact goes.part begins (.refl goes.fit) rfl rfl fun _ => .observed
  | batched found _ noSolve induction =>
      intro fit _
      have goes := induction (World.Stays.setSettings fit).fit trivial
      exact goes.part (.setSettings fit) (.setSettings goes.fit) rfl rfl
        fun _ runs => .batched found runs noSolve
  | batchSolved found _ auto _ ran solved =>
      intro fit _
      have goes := ran (World.Stays.setSettings fit).fit trivial
      have later := solved (World.Stays.setSettings goes.fit).fit trivial
      exact goes.parts later (.setSettings fit) (.setSettings goes.fit) rfl rfl
        rfl fun _ runs => .batchSolved found runs auto
  | stopped _ failed induction =>
      intro fit _
      have goes := induction fit trivial
      exact goes.part (.refl fit) (.ended goes.fit) rfl rfl fun _ runs =>
        .stopped runs failed
  | continued _ goesOn _ first later =>
      intro fit _
      have goes := first fit trivial
      have goesLater := later (World.Stays.ended goes.fit).fit trivial
      exact goes.parts goesLater (.refl fit) (.ended goes.fit) rfl rfl rfl
        fun _ runs => .continued runs goesOn
  | taskFailed found yields =>
      exact fun fit _ => .leaf (.worked fit found yields) rfl fun _ =>
        .taskFailed found yields
  | taskDone found yields _ induction =>
      intro fit _
      have works := World.Stays.worked fit found yields
      have steady := Task.edit_steady _ _ _ _ yields
      have goes := induction works.fit fun some => .adopt found
        ⟨steady.dispatching.trans (Task.idle_of_moved yields some),
          Task.lists_moved (fit.coherent _ _ found) yields⟩
      exact goes.part works (.refl goes.fit) rfl rfl fun _ =>
        .taskDone found yields
  | unannounced some _ induction =>
      intro fit ready
      have goes := induction fit (ready some)
      exact goes.part (.refl fit) (.refl goes.fit) rfl rfl fun _ =>
        .unannounced some
  | announced some _ _ first later =>
      intro fit ready
      have goes := first fit (ready some)
      have idle :=
        (goes.stays rfl).idle fit (World.dispatches_of_at (ready some))
      exact goes.parts (later goes.fit idle) (.refl fit) (.refl goes.fit)
        rfl rfl rfl fun _ => .announced some
  | roundHeld some _ calls =>
      exact fun fit ready => .round fit ready (fun _ => ⟨rfl, rfl, rfl, rfl⟩)
        (fun _ => rfl) calls fun _ => .roundHeld some
  | roundBroken some _ calls =>
      exact fun fit ready => .round fit ready (fun _ => ⟨rfl, rfl, rfl, rfl⟩)
        (fun _ => rfl) calls fun _ => .roundBroken some
  | callSkipped found nobody _ induction =>
      rintro fit ⟨waiting, between, sublist⟩
      have goes := induction fit
        ⟨waiting, between, (List.sublist_cons_self _ _).trans sublist⟩
      exact ⟨goes.along.part .refl .refl fun _ => .callSkipped found nobody,
        goes.fit, goes.others, goes.busy⟩
  | callFailed found listens _ holds call =>
      exact fun fit ready => .callFailed fit ready found listens
        (fun fit => call fit trivial) holds
  | called found listens _ holds _ call later =>
      exact fun fit ready => .called fit ready found listens
        (fun fit => call fit trivial) holds later
  | settled found idle _ drains =>
      exact fun fit ready => .settlement fit ready
        (fun _ => ⟨rfl, rfl, rfl, rfl⟩) (fun _ => rfl) drains fun _ =>
        .settled found idle
  | unsettled found idle _ drains =>
      exact fun fit ready => .settlement fit ready
        (fun _ => ⟨rfl, rfl, rfl, rfl⟩) (fun _ => rfl) drains fun _ =>
        .unsettled found idle
  | drainFailed found next within yields =>
      exact fun fit ready => .leaf (.served fit ready found next yields) rfl
        fun _ => .drainFailed found next within yields
  | drainBroken found next within yields _ round =>
      intro fit ready
      have serves := World.Stays.served fit ready found next yields
      have goes := round serves.fit (.served fit ready found next yields)
      exact goes.part serves (.refl goes.fit) rfl rfl fun _ =>
        .drainBroken found next within yields
  | drainContinued found next within yields _ _ round later =>
      intro fit ready
      have serves := World.Stays.served fit ready found next yields
      have goes := round serves.fit (.served fit ready found next yields)
      have idle := (serves.trans (goes.stays rfl)).idle fit ready
      exact goes.parts (later goes.fit idle) serves (.refl goes.fit) rfl rfl rfl
        fun _ => .drainContinued found next within yields

end LiveLinear
