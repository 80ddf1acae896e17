import LiveLinear.Proofs.Elimination.Exact
import LiveLinear.Proofs.Session.Steps
import LiveLinear.Proofs.Session.Ways
import LiveLinear.Proofs.Solver.Representation

namespace LiveLinear

/-! # Traces

The worlds that a session passes through, one change at a time, and what holds
of all of them: solvers represent locks, and ids are not used again. -/

variable {α : Type}

/-! ## Changes of a world -/

namespace World

variable [Scalar α]

/-- One change of a world. The edits that solvers carry out are not taken apart,
since no hook runs in the middle of one. -/
inductive Advances : World α → World α → Prop
  /-- At most labels have changed. -/
  | relabelled (like : before.Like after) : Advances before after
  | recorded (event : Event α) : Advances world (world.record event)
  | founded (settings : Settings α) : Advances world (world.addSolver settings)
  | defined (tag : String) (body : Script α) :
      Advances world (world.addHook tag body)
  /-- A solver gets other settings, or another phase of its work begins. -/
  | marked {id} {change : Solver α → Solver α}
      (same : ∀ solver : Solver α, solver.SameContents (change solver)) :
      Advances world (world.change id change)
  /-- A solver carries out a task, however that ends. -/
  | worked {id} {task : Task α} (found : world.solvers[id]? = some solver)
      (yields : task.edit.Yields ⟨solver, []⟩ result draft) :
      Advances world (world.adopt id draft)
  /-- A solver takes up deferred work, however that ends. -/
  | resumed {id} (found : world.solvers[id]? = some solver)
      (next : solver.nextDeferred = some work)
      (yields : work.Yields ⟨solver, []⟩ result draft) :
      Advances world (world.adopt id draft)

def Becomes : World α → World α → Prop :=
  Relation.ReflTransGen Advances

variable {before middle after : World α}

theorem Becomes.refl (world : World α) : world.Becomes world :=
  Relation.ReflTransGen.refl

theorem Becomes.trans (left : before.Becomes middle)
    (right : middle.Becomes after) :
    before.Becomes after :=
  Relation.ReflTransGen.trans left right

theorem Advances.becomes (advances : before.Advances after) :
    before.Becomes after :=
  Relation.ReflTransGen.single advances

theorem Becomes.of_like (like : before.Like after) : before.Becomes after :=
  (Advances.relabelled like).becomes

theorem Becomes.record (world : World α) (event : Event α) :
    world.Becomes (world.record event) :=
  (Advances.recorded event).becomes

theorem Becomes.mark {world : World α} {id : SolverId}
    {change : Solver α → Solver α}
    (same : ∀ solver : Solver α, solver.SameContents (change solver)) :
    world.Becomes (world.change id change) :=
  (Advances.marked same).becomes

theorem Becomes.beginRound {world : World α} {id : SolverId}
    (targets : List VariableId) :
    world.Becomes
      ((world.record (.roundBegan id targets)).change id
        fun solver => { solver with dispatching := true }) :=
  (record world _).trans (mark fun _ => ⟨rfl, rfl, rfl, rfl⟩)

end World

namespace World

variable [Scalar α]

theorem Alters.advances {before after : World α}
    (alters : before.Alters after) :
    before.Advances after := by
  cases alters with
  | relabelled like => exact .relabelled like
  | @recorded _ event _ => exact .recorded event
  | founded settings => exact .founded settings
  | defined tag body => exact .defined tag body
  | marked marks => exact .marked marks.contents
  | worked found yields => exact .worked found yields
  | resumed found next yields => exact .resumed found next yields

end World

theorem Activity.RunsWith.becomes [Scalar α] {known : Activity.Calls α}
    {activity : Activity α} {before after : World α} {result : Ending α}
    (runs : activity.RunsWith known before result after) :
    before.Becomes after :=
  Relation.ReflTransGen.mono (fun _ _ alters => alters.advances) before after
    runs.alters

/-! ## What every change keeps -/

namespace World

variable {before after world : World α}

def Represented (world : World α) : Prop :=
  world.Each fun _ solver => solver.Represented

def Ages (before after : World α) : Prop :=
  Continues Solver.Ages (fun _ => True) before after

theorem Ages.trans {middle : World α} (left : before.Ages middle)
    (right : middle.Ages after) :
    before.Ages after :=
  Continues.trans (fun _ _ _ left right => left.trans right)
    (fun _ _ _ _ => trivial) left right

section Advancing

variable [Scalar α]

theorem Advances.represented (advances : before.Advances after)
    (represented : before.Represented) : after.Represented := by
  cases advances with
  | relabelled like => exact Each.of_like represented like
  | recorded | defined => exact represented
  | founded =>
      exact Each.addSolver represented fun id => Solver.represented_empty id _
  | marked same =>
      exact Each.change represented (fun _ _ _ holds => holds)
          fun solver _ holds =>
        holds.of_sameContents (same solver)
  | worked found yields =>
      exact Each.adopt represented found (fun _ _ _ holds => holds)
        (Task.edit_evolves _ _ _ _ yields).represented
  | resumed found next yields =>
      exact Each.adopt represented found (fun _ _ _ holds => holds)
        (Solver.evolves_of_nextDeferred next yields).represented

theorem Becomes.represented (becomes : before.Becomes after)
    (represented : before.Represented) : after.Represented := by
  induction becomes with
  | refl => exact represented
  | tail _ advances induction => exact advances.represented induction

theorem Advances.ages (advances : before.Advances after) :
    before.Ages after := by
  cases advances with
  | relabelled like => exact .of_same Solver.Ages.refl like.solvers
  | recorded | defined => exact .of_same Solver.Ages.refl rfl
  | founded => exact .addSolver Solver.Ages.refl fun _ => trivial
  | marked same =>
      exact .change Solver.Ages.refl fun solver _ => (same solver).evolves.ages
  | worked found yields =>
      exact .adopt Solver.Ages.refl found
        (Task.edit_evolves _ _ _ _ yields).ages
  | resumed found next yields =>
      exact .adopt Solver.Ages.refl found
        (Solver.evolves_of_nextDeferred next yields).ages

/-- Each event but a note is the latest one in some world. -/
theorem Advances.history (advances : before.Advances after) {event : Event α}
    {older : List (Event α)} (visible : ∀ id, event.noteOf id = none)
    (happened : (event :: older) <:+ after.history) :
    after.history = event :: older ∨ (event :: older) <:+ before.history := by
  have unnoted : ∀ {id : SolverId} {notes : List (Note α)},
      (event :: older) <:+ notes.map (.noted id) ++ before.history →
        (event :: older) <:+ before.history := by
    intro id notes
    induction notes with
    | nil => exact fun happened => happened
    | cons note rest induction =>
        intro happened
        rcases List.suffix_cons_iff.mp happened with latest | earlier
        · cases latest
          have noted := visible id
          simp [Event.noteOf] at noted
        · exact induction earlier
  cases advances with
  | relabelled like =>
      rw [like.history] at happened
      exact .inr happened
  | recorded _ =>
      rcases List.suffix_cons_iff.mp happened with latest | earlier
      · exact .inl latest.symm
      · exact .inr earlier
  | founded | defined | marked => exact .inr happened
  | worked | resumed => exact .inr (unnoted happened)

end Advancing

end World

/-! ## Traces of a session -/

/-- The first step to a property on a way that leads to it. -/
theorem exists_first {β : Type} {relation : β → β → Prop} (property : β → Prop)
    {trace : List β} :
    ∀ first, (first :: trace).IsChain relation → ¬property first →
      ∀ last ∈ trace, property last → ∃ before after later,
        before ∈ first :: trace ∧ relation before after ∧ ¬property before ∧
        property after ∧ (after :: later) <:+ trace ∧
        last ∈ after :: later := by
  induction trace with
  | nil =>
      intro _ _ _ last impossible
      cases impossible
  | cons next rest induction =>
      intro first chain lacks last member holds
      rcases List.isChain_cons_cons.mp chain with ⟨related, laterChain⟩
      by_cases holdsNext : property next
      · exact ⟨first, next, rest, List.mem_cons_self, related, lacks, holdsNext,
          List.suffix_refl _, member⟩
      · have later : last ∈ rest := by
          rcases List.mem_cons.mp member with rfl | later
          · exact absurd holds holdsNext
          · exact later
        rcases induction next laterChain holdsNext last later holds with
          ⟨before, after, others, isBefore, step, lacksBefore, holdsAfter,
            trailing, isLast⟩
        exact ⟨before, after, others, List.mem_cons_of_mem _ isBefore, step,
          lacksBefore, holdsAfter, trailing.trans (List.suffix_cons _ _),
          isLast⟩

theorem exists_moment {relation : World α → World α → Prop}
    {trace : List (World α)} {event : Event α} {older : List (Event α)}
    (latest : ∀ before after, relation before after →
      (event :: older) <:+ after.history → after.history = event :: older ∨
      (event :: older) <:+ before.history)
    (chain : (World.empty :: trace).IsChain relation) {world : World α}
    (member : world ∈ trace) (happened : (event :: older) <:+ world.history) :
    ∃ moment ∈ trace, moment.history = event :: older := by
  have nothing : ¬(event :: older) <:+ (World.empty : World α).history := by
    intro impossible
    cases List.suffix_nil.mp impossible
  rcases exists_first (fun world => (event :: older) <:+ world.history) .empty
      chain nothing world member happened with
      ⟨before, after, later, _, step, lacks, holds, trailing, _⟩
  exact ⟨after, trailing.subset List.mem_cons_self,
    (latest _ _ step holds).resolve_right lacks⟩

namespace Session

variable [Scalar α] {engine : Engine α}

/-- The worlds that a session passes through. Among them are the one after each
command, and one for each event that is not a note: the world in which a hook is
called, for instance, or the one in which a command of a hook has just ended. -/
structure Traces (engine : Engine α) (commands : List (Command α))
    (trace : List (World α)) :
    Prop where
  advances : (World.empty :: trace).IsChain World.Advances
  steps : ((play engine .empty commands).map Step.world).Sublist trace
  moments : ∀ world ∈ trace, ∀ event older, (∀ id, event.noteOf id = none) →
    (event :: older) <:+ world.history → ∃ moment ∈ trace,
    moment.history = event :: older

/-- Each command goes by the rules from the world that it finds, if `known` is
what is known of the hooks that are called. -/
def PlaysWith (known : Activity.Calls α) (engine : Engine α) :
    World α → List (Command α) → Prop
  | _, [] => True
  | world, command :: rest =>
      ∀ done, step engine world command = some done →
        Activity.RunsWith known (.command none command) world
          (ending done.outcome) done.world ∧
        PlaysWith known engine done.world rest

/-- What a session does goes on one change at a time, if every step of it
does. -/
theorem exists_chain {relation : World α → World α → Prop}
    {invariant : World α → Prop} {known : Activity.Calls α}
    (still : ∀ world, relation world world)
    (stepwise : ∀ before command done, invariant before →
      step engine before command = some done →
        Activity.Along relation known (.command none command) before
          (ending done.outcome) done.world ∧ invariant done.world)
    (commands : List (Command α)) :
    ∀ world, invariant world → ∃ trace, (world :: trace).IsChain relation ∧
      ((play engine world commands).map Step.world).Sublist trace ∧
      ∀ more : Activity.Calls α, (∀ body value start ending last,
        known.On trace body value start ending last →
          more body value start ending last) →
        PlaysWith more engine world commands := by
  induction commands with
  | nil =>
      exact fun world _ => ⟨[], .singleton world, List.Sublist.refl _,
        fun _ _ => trivial⟩
  | cons command rest induction =>
      intro world holds
      rw [play]
      cases stepped : step engine world command with
      | none =>
          refine ⟨[], .singleton world, List.Sublist.refl _, ?_⟩
          intro more _ done impossible
          rw [stepped] at impossible
          cases impossible
      | some done =>
          rcases stepwise world command done holds stepped with
            ⟨⟨passed, way, runs⟩, holdsAfter⟩
          rcases induction done.world holdsAfter with
            ⟨later, laterChain, inLater, plays⟩
          have here : World.Way relation done.world [done.world] done.world :=
            ⟨still done.world, rfl⟩
          have whole := way.append here
          refine ⟨passed ++ done.world :: later, ?_, ?_, ?_⟩
          · rw [List.isChain_cons_split]
            exact ⟨whole.isChain, laterChain⟩
          · exact (inLater.cons_cons _).trans (List.sublist_append_right _ _)
          · intro more knows again isDone
            rw [stepped] at isDone
            cases isDone
            constructor
            · refine runs more ?_
              rintro body value start ending last ⟨call, isStart, isLast⟩
              exact knows _ _ _ _ _ ⟨call, List.mem_append_left _ isStart,
                List.mem_append_left _ isLast⟩
            · refine plays more ?_
              rintro body value start ending last ⟨call, isStart, isLast⟩
              have among : ∀ world ∈ later,
                  world ∈ passed ++ done.world :: later := fun world member =>
                List.mem_append_right _ (List.mem_cons_of_mem _ member)
              exact knows _ _ _ _ _ ⟨call, among _ isStart, among _ isLast⟩

theorem exists_altering_traces {known : Activity.Calls α}
    (sound : engine.SoundWith known) (commands : List (Command α)) :
    ∃ trace, Traces engine commands trace ∧
      PlaysWith (known.On trace) engine .empty commands ∧
      (World.empty :: trace).IsChain World.Alters := by
  rcases exists_chain (fun world => World.Alters.relabelled (.refl world))
      (fun _ _ _ (_ : True) stepped =>
        ⟨(step_runs sound stepped).1.along, trivial⟩)
      commands .empty trivial with ⟨trace, alters, steps, plays⟩
  have advances := alters.imp fun _ _ step => step.advances
  refine ⟨trace, ⟨advances, steps, ?_⟩, plays _ fun _ _ _ _ _ call =>
    call, alters⟩
  intro world member event older visible happened
  exact exists_moment (fun _ _ advances => advances.history visible) advances
    member happened

theorem exists_traces (sound : engine.Sound) (commands : List (Command α)) :
    ∃ trace, Traces engine commands trace := by
  rcases exists_altering_traces sound commands with ⟨trace, traces, _⟩
  exact ⟨trace, traces⟩

theorem Traces.last_mem {commands : List (Command α)} {trace : List (World α)}
    (traces : Traces engine commands trace)
    (moves : 0 < (play engine .empty commands).length) :
    ((play engine .empty commands).getLast?.map Step.world).getD .empty ∈
      trace := by
  have nonempty := List.ne_nil_of_length_pos moves
  rw [List.getLast?_eq_some_getLast nonempty]
  exact traces.steps.subset (List.mem_map_of_mem (List.getLast_mem nonempty))

theorem exists_traces_of_last (sound : engine.Sound)
    {commands : List (Command α)}
    (moves : 0 < (play engine .empty commands).length) :
    ∃ trace, Traces engine commands trace ∧
      ((play engine .empty commands).getLast?.map Step.world).getD .empty ∈
        trace := by
  rcases exists_traces sound commands with ⟨trace, traces⟩
  exact ⟨trace, traces, traces.last_mem moves⟩

namespace Traces

variable {commands : List (Command α)} {trace : List (World α)}

theorem represented (traces : Traces engine commands trace) :
    ∀ world ∈ trace, world.Represented := by
  apply traces.advances.cons_induction World.Represented
  · exact fun _ _ advances represented => advances.represented represented
  · exact fun _ _ found => nomatch found

theorem ages (traces : Traces engine commands trace) :
    trace.Pairwise World.Ages := by
  have transitive : Trans (World.Ages (α := α)) World.Ages World.Ages :=
    ⟨World.Ages.trans⟩
  have chain := traces.advances.of_cons.imp fun _ _ advances => advances.ages
  exact chain.pairwise

end Traces

/-- Whatever happens in a session, at every moment the variables and constraints
of each solver belong together, and what has gone does not come back. Among
those moments are the ones at which engines call hooks, and the ones at which
these calls have ended. -/
theorem traces_represented (patience depth : Nat)
    (commands : List (Command α)) :
    (∃ trace, Traces (.ofDepth patience depth) commands trace ∧
        PlaysWith (Activity.Calls.On (Engine.Calls patience) trace)
          (.ofDepth patience depth) .empty commands) ∧
      ∀ trace, Traces (.ofDepth patience depth) commands trace →
        (∀ world ∈ trace, ∀ solver ∈ world.solvers, solver.Represented) ∧
        ∀ first second third, [first, second, third].Sublist trace →
          ∀ (id : SolverId) (former between later : Solver α),
            first.solvers[id]? = some former →
            second.solvers[id]? = some between →
            third.solvers[id]? = some later →
            (∀ target ∈ former.unknowns.keys,
              target ∉ between.unknowns.keys →
              target ∉ later.unknowns.keys) ∧
            ∀ held ∈ former.constraints.keys,
              held ∉ between.constraints.keys →
              held ∉ later.constraints.keys := by
  constructor
  · rcases exists_altering_traces (Engine.ofDepth_soundWith patience depth)
      commands with ⟨trace, traces, plays, _⟩
    exact ⟨trace, traces, plays⟩
  intro trace traces
  constructor
  · intro world member solver isSolver
    rcases List.mem_iff_getElem?.mp isSolver with ⟨id, found⟩
    exact traces.represented world member id solver found
  · intro first second third inOrder id former between later isFormer isBetween
      isLater
    have ages := traces.ages.sublist inOrder
    simp only [List.pairwise_cons, List.mem_cons, forall_eq_or_imp] at ages
    rcases ages with ⟨⟨earlier, _⟩, ⟨late, _⟩, _⟩
    have coherent :=
      (traces.represented first (inOrder.subset List.mem_cons_self) id former
        isFormer).coherent
    rcases earlier.old id former isFormer with ⟨_, same, first⟩
    rw [isBetween] at same
    cases same
    rcases late.old id between isBetween with ⟨_, same, second⟩
    rw [isLater] at same
    cases same
    exact ⟨fun _ live => Solver.Ages.variable_gone coherent first second live,
      fun _ live => Solver.Ages.constraint_gone coherent first second live⟩

/-- A value that a locked variable stands in the way of, and then a hook that
adds, removes and puts off. -/
def replacingCommands : List (Command ℚ) :=
  [.operation (.newSolver "s" true true (.literal (some 0)) 10),
    .operation (.addVariable "s" "x" none (.literal (some 1))),
    .operation (.addVariable "s" "y" none (.literal (some 2))),
    .operation (.addConstraint "s" (some "c")
      [(.label "x", .literal (some 1)), (.label "y", .literal (some 1))]
      (.literal (some 3))),
    .operation (.lock "y"),
    .observeInline "x"
      (.ofList [(.operation (.deleteConstraint "c"), false),
        (.operation (.deleteVariable "y"), false),
        (.operation (.addVariable "s" "z" none (.literal (some 4))), false),
        (.operation (.setValue "z" (.derived none 2 0) .chained), false)])
      none,
    .operation (.setValue "x" (.literal (some 5)) .chained),
    .operation (.unlock "y"),
    .operation (.setValue "x" (.literal (some 5)) .chained)]

theorem traces_represented_replacingCommands :
    ∃ trace, Traces (.ofDepth 9 3) replacingCommands trace ∧
      PlaysWith (Activity.Calls.On (Engine.Calls 9) trace) (.ofDepth 9 3) .empty
        replacingCommands ∧
      (∃ last ∈ trace,
        last.solvers.map (fun solver => solver.unknowns.keys) = [[0, 2]] ∧
        last.solvers.map (fun solver => solver.nextConstraint) = [5]) ∧
      (∃ moment ∈ trace, ∃ tag value older,
        moment.history = .hookCalled 0 0 tag value :: older) ∧
      ∀ world ∈ trace, ∀ solver ∈ world.solvers, solver.Represented := by
  rcases traces_represented 9 3 replacingCommands with
    ⟨⟨trace, traces, plays⟩, each⟩
  have ended : ∃ done ∈ play (.ofDepth 9 3) .empty replacingCommands,
      (done.world.solvers.map (fun solver => solver.unknowns.keys) = [[0, 2]] ∧
        done.world.solvers.map (fun solver => solver.nextConstraint) = [5]) ∧
      ∃ event ∈ done.world.history, (match event with
        | .hookCalled 0 0 _ _ => true
        | _ => false) = true := by
    decide +kernel
  rcases ended with ⟨done, isStep, contents, event, happened, called⟩
  have member : done.world ∈ trace :=
    traces.steps.subset (List.mem_map_of_mem isStep)
  refine ⟨trace, traces, plays, ⟨done.world, member, contents⟩, ?_,
    (each trace traces).1⟩
  split at called
  · next tag value =>
      rcases List.append_of_mem happened with ⟨newer, older, isHistory⟩
      have latest := traces.moments done.world member _ older (fun _ => rfl)
        ⟨newer, isHistory.symm⟩
      rcases latest with ⟨moment, inTrace, isMoment⟩
      exact ⟨moment, inTrace, tag, value, older, isMoment⟩
  · cases called

end Session

end LiveLinear
