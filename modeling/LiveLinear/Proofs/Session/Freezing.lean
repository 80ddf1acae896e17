import LiveLinear.Proofs.Session.Rounds
import LiveLinear.Proofs.Session.Trace
import LiveLinear.Proofs.Solver.Waiting

namespace LiveLinear

/-! # Frozen rounds

Hooks of one solver are called one at a time, and while a round lasts no
variable of its solver moves, whatever the hooks do. -/

variable {α : Type}

namespace World

variable {world before middle after first second : World α} {id : SolverId}
  {solver : Solver α}

/-- The world is in the round of a solver that began when `begun` was the
history. -/
def InRound (world : World α) (id : SolverId) (begun : List (Event α)) : Prop :=
  ∃ newer, world.history = newer ++ begun ∧ .roundEnded id ∉ newer

theorem InRound.earlier {begun : List (Event α)}
    (inRound : after.InRound id begun) (since : begun <:+ before.history)
    (history : before.history <:+ after.history) :
    before.InRound id begun := by
  rcases inRound with ⟨newer, isHistory, open_⟩
  rcases since with ⟨newerBefore, isBefore⟩
  rcases history with ⟨added, isAfter⟩
  have parts : newer = added ++ newerBefore := by
    apply List.append_cancel_right
    rw [← isHistory, ← isAfter, ← isBefore, List.append_assoc]
  refine ⟨newerBefore, isBefore.symm, fun member => open_ ?_⟩
  rw [parts]
  exact List.mem_append_right _ member

theorem InRound.dispatches {ids : List VariableId} {older : List (Event α)}
    (inRound : world.InRound id (.roundBegan id ids :: older))
    (inStep : world.InStep) :
    world.dispatches id = true := by
  rcases inRound with ⟨newer, isHistory, open_⟩
  rw [(inStep id).2, isHistory]
  refine Event.calling_ne_nobody ?_ open_
  rw [Calling.of, Calling.next, if_pos rfl]
  simp

variable [Scalar α]

/-! ## What every step keeps -/

theorem Proceeds.becomes (proceeds : before.Proceeds after) :
    before.Becomes after := by
  cases proceeds with
  | relabelled like => exact .of_like like
  | ended => exact .record _ _
  | founded settings => exact (Advances.founded settings).becomes
  | defined tag body => exact (Advances.defined tag body).becomes
  | marked same _ => exact .mark same
  | worked found yields => exact (Advances.worked found yields).becomes
  | resumed found _ next yields =>
      exact (Advances.resumed found next yields).becomes
  | began => exact .beginRound _
  | called => exact .record _ _
  | returned => exact .record _ _
  | closed same _ => exact (Becomes.mark same).trans (.record _ _)

theorem Proceeds.history_suffix (proceeds : before.Proceeds after) :
    before.history <:+ after.history := by
  cases proceeds with
  | relabelled like => exact ⟨[], like.history.symm⟩
  | founded | defined | marked => exact List.suffix_refl _
  | worked | resumed => exact List.suffix_append _ _
  | ended | began | called | returned | closed => exact List.suffix_cons _ _

theorem Passes.history_suffix (passes : before.Passes after) :
    before.history <:+ after.history := by
  induction passes with
  | refl => exact List.suffix_refl _
  | tail _ proceeds induction => exact induction.trans proceeds.history_suffix

theorem Proceeds.latest (proceeds : before.Proceeds after) {event : Event α}
    {older : List (Event α)} (visible : ∀ id, event.noteOf id = none)
    (happened : (event :: older) <:+ after.history) :
    after.history = event :: older ∨ (event :: older) <:+ before.history := by
  have recorded : ∀ {other : Event α},
      (event :: older) <:+ other :: before.history →
      other :: before.history = event :: older ∨
      (event :: older) <:+ before.history :=
    fun happened => (List.suffix_cons_iff.mp happened).imp_left Eq.symm
  cases proceeds with
  | relabelled like => exact (Advances.relabelled like).history visible happened
  | founded | defined | marked => exact .inr happened
  | worked found yields =>
      exact (Advances.worked found yields).history visible happened
  | resumed found _ next yields =>
      exact (Advances.resumed found next yields).history visible happened
  | ended | began | called | returned | closed => exact recorded happened

/-- A step moves no variable of a solver whose hooks are being called. -/
theorem Proceeds.keepsValues (proceeds : before.Proceeds after)
    (busy : before.dispatches id = true)
    (found : before.solvers[id]? = some solver) :
    ∃ later, after.solvers[id]? = some later ∧ solver.KeepsValues later := by
  have dispatching : solver.dispatching = true :=
    (dispatches_of_some found).symm.trans busy
  have changed : ∀ {other : SolverId} {change : Solver α → Solver α},
      (∀ solver : Solver α, solver.SameContents (change solver)) →
        ∃ later, (before.change other change).solvers[id]? = some later ∧
          solver.KeepsValues later := by
    intro other change same
    by_cases isSelf : other = id
    · subst other
      exact ⟨change solver, getElem?_change_self change found,
        .of_unknowns (same solver).unknowns (same solver).nextVariable⟩
    · rw [getElem?_change_of_ne change isSelf]
      exact ⟨solver, found, .refl solver⟩
  have adopted : ∀ {other : SolverId} {present : Solver α} {draft : Draft α},
      before.solvers[other]? = some present →
        (other = id → present = solver → solver.KeepsValues draft.solver) →
          ∃ later, (before.adopt other draft).solvers[id]? = some later ∧
            solver.KeepsValues later := by
    intro other present draft isPresent kept
    by_cases isSelf : other = id
    · subst other
      rw [found] at isPresent
      cases isPresent
      exact ⟨draft.solver, getElem?_adopt_self draft found, kept rfl rfl⟩
    · rw [getElem?_adopt_of_ne draft isSelf]
      exact ⟨solver, found, .refl solver⟩
  cases proceeds with
  | relabelled like =>
      rw [like.solvers]
      exact ⟨solver, found, .refl solver⟩
  | ended | defined | called | returned => exact ⟨solver, found, .refl solver⟩
  | founded => exact ⟨solver, getElem?_addSolver_of_some found, .refl solver⟩
  | marked same _ => exact changed same
  | worked isPresent yields =>
      refine adopted isPresent ?_
      rintro _ rfl
      exact (Task.edit_waits _ _ _ _ yields dispatching).2.1
  | resumed isPresent idle _ _ =>
      refine adopted isPresent ?_
      rintro _ rfl
      rw [dispatching] at idle
      cases idle
  | began => exact changed fun _ => ⟨rfl, rfl, rfl, rfl⟩
  | closed same _ => exact changed same

/-- While a round lasts, no variable moves. -/
theorem Passes.keepsValues {ids : List VariableId} {older : List (Event α)}
    (passes : first.Passes second) (inStep : first.InStep)
    (since : (.roundBegan id ids :: older) <:+ first.history)
    (inRound : second.InRound id (.roundBegan id ids :: older))
    (found : first.solvers[id]? = some solver) :
    ∃ later, second.solvers[id]? = some later ∧ solver.KeepsValues later := by
  induction passes with
  | refl => exact ⟨solver, found, .refl solver⟩
  | @tail middle _ passes proceeds induction =>
      have between :=
        inRound.earlier (since.trans (Passes.history_suffix passes))
          proceeds.history_suffix
      rcases induction between with ⟨later, isLater, kept⟩
      have busy := between.dispatches (Passes.inStep passes inStep)
      rcases proceeds.keepsValues busy isLater with ⟨last, isLast, keptToo⟩
      exact ⟨last, isLast, kept.trans keptToo⟩

/-- What is known of a step from the event that it records: a round begins with
live variables of its solver, and a hook is called with the value that its
variable has. -/
def Brings (before after : World α) : Event α → Prop
  | .roundBegan id ids =>
      ∃ solver, after.solvers[id]? = some solver ∧ solver.Lists ids
  | .hookCalled id target _ value =>
      ∃ solver waiting, before.solvers[id]? = some solver ∧
        solver.value? target = some value ∧
        Calling.of id before.history = .between waiting ∧ target ∈ waiting
  | _ => True

theorem Proceeds.brings {event : Event α} {older : List (Event α)}
    (proceeds : before.Proceeds after) (visible : ∀ id, event.noteOf id = none)
    (new : ¬(event :: older) <:+ before.history)
    (isHistory : after.history = event :: older) :
    before.history = older ∧ before.Brings after event := by
  have old : before.history ≠ event :: older := by
    intro same
    rw [same] at new
    exact new (List.suffix_refl _)
  have noted : ∀ {other : SolverId} {notes : List (Note α)},
      notes.map (.noted other) ++ before.history ≠ event :: older := by
    intro other notes equal
    cases notes with
    | nil => exact old equal
    | cons note rest =>
        cases equal
        have impossible := visible other
        simp [Event.noteOf] at impossible
  cases proceeds with
  | relabelled like =>
      rw [like.history] at isHistory
      exact absurd isHistory old
  | founded | defined | marked => exact absurd isHistory old
  | worked | resumed => exact absurd isHistory noted
  | ended | returned | closed =>
      cases isHistory
      exact ⟨rfl, trivial⟩
  | began found _ lists =>
      cases isHistory
      exact ⟨rfl, _, getElem?_change_self _ found, lists⟩
  | called found listens between isWaiting =>
      cases isHistory
      exact ⟨rfl, _, _, found, value?_of_listener listens, between, isWaiting⟩

end World

/-! ## Sessions -/

namespace Session

variable [Scalar α] {engine : Engine α} {commands : List (Command α)}
  {trace : List (World α)}

/-- The worlds that a session passes through step by step, where rounds begin
and end at once: among them the one after each command, and one for each event
that is not a note. -/
structure Unfolds (engine : Engine α) (commands : List (Command α))
    (trace : List (World α)) :
    Prop where
  proceeds : (World.empty :: trace).IsChain World.Proceeds
  steps : ((play engine .empty commands).map Step.world).Sublist trace
  moments : ∀ world ∈ trace, ∀ event older, (∀ id, event.noteOf id = none) →
    (event :: older) <:+ world.history → ∃ moment ∈ trace,
    moment.history = event :: older

theorem exists_unfolds {known : Activity.Calls α}
    (sound : engine.SoundWith known) (commands : List (Command α)) :
    ∃ trace, Unfolds engine commands trace ∧
      PlaysWith (known.On trace) engine .empty commands := by
  have stepwise : ∀ before command done, World.Fit before →
      step engine before command = some done →
        Activity.Along World.Proceeds known (.command none command) before
          (ending done.outcome) done.world ∧ World.Fit done.world := by
    intro before command done fit stepped
    have goes := (step_runs sound stepped).1.goes fit trivial
    exact ⟨goes.along, goes.fit⟩
  have coherent : (World.empty : World α).Coherent := fun _ _ found =>
    nomatch found
  rcases exists_chain (fun world => World.Proceeds.relabelled (.refl world))
      stepwise commands .empty ⟨.empty, coherent⟩ with
      ⟨trace, proceeds, steps, plays⟩
  refine ⟨trace, ⟨proceeds, steps, ?_⟩, plays _ fun _ _ _ _ _ call => call⟩
  intro world member event older visible happened
  exact exists_moment (fun _ _ proceeds => proceeds.latest visible) proceeds
    member happened

namespace Unfolds

theorem inStep (unfolds : Unfolds engine commands trace) : ∀ world ∈ trace,
    world.InStep :=
  unfolds.proceeds.cons_induction World.InStep _
    (fun _ _ proceeds inStep => proceeds.inStep inStep) .empty

theorem coherent (unfolds : Unfolds engine commands trace) : ∀ world ∈ trace,
    world.Coherent := by
  have represented := unfolds.proceeds.cons_induction World.Represented _
    (fun _ _ proceeds represented => proceeds.becomes.represented represented)
    fun _ _ found => nomatch found
  exact fun world member id solver found =>
    (represented world member id solver found).coherent

theorem passes (unfolds : Unfolds engine commands trace) :
    trace.Pairwise World.Passes := by
  have transitive : Trans (World.Passes (α := α)) World.Passes World.Passes :=
    ⟨World.Passes.trans⟩
  have chain := unfolds.proceeds.of_cons.imp fun _ _ proceeds => proceeds.passes
  exact chain.pairwise

/-- The variables that are live at two moments of one round have the same
values. -/
theorem value?_eq (unfolds : Unfolds engine commands trace)
    {first second : World α} (inOrder : [first, second].Sublist trace)
    {id : SolverId} {ids : List VariableId} {older : List (Event α)}
    (since : (.roundBegan id ids :: older) <:+ first.history)
    (inRound : second.InRound id (.roundBegan id ids :: older))
    {former later : Solver α} (isFormer : first.solvers[id]? = some former)
    (isLater : second.solvers[id]? = some later) {target : VariableId}
    {value : α} (live : target ∈ former.unknowns.keys)
    (present : later.value? target = some value) :
    former.value? target = some value := by
  have isFirst : first ∈ trace := inOrder.subset List.mem_cons_self
  have passes :=
    List.rel_of_pairwise_cons (unfolds.passes.sublist inOrder)
      List.mem_cons_self
  rcases passes.keepsValues (unfolds.inStep first isFirst) since inRound
    isFormer with
    ⟨same, isSame, kept⟩
  rw [isLater] at isSame
  cases isSame
  have coherent : former.Coherent :=
    unfolds.coherent first isFirst id former isFormer
  exact kept.value?_eq (coherent.unknownsBelow target live) present

/-- A hook is called with the value that its variable had when the round
began. -/
theorem called (unfolds : Unfolds engine commands trace) {world : World α}
    (member : world ∈ trace) {id : SolverId} {ids : List VariableId}
    {newer older : List (Event α)} {target : VariableId} {tag : String}
    {value : α} (isHistory : world.history =
      .hookCalled id target tag value :: (newer ++ .roundBegan id ids :: older))
    (open_ : .roundEnded id ∉ newer) :
    ∃ began ∈ trace, began.history = .roundBegan id ids :: older ∧
      ∃ solver, began.solvers[id]? = some solver ∧
        solver.value? target = some value := by
  have begun : (.roundBegan id ids :: older) <:+ world.history := by
    rw [isHistory]
    exact (List.suffix_append newer _).trans (List.suffix_cons _ _)
  have notYet :
      ¬(.roundBegan id ids :: older) <:+ (World.empty : World α).history := by
    intro impossible
    cases List.suffix_nil.mp impossible
  rcases exists_first
      (fun world => (.roundBegan id ids :: older) <:+ world.history) .empty
      unfolds.proceeds notYet world member begun with
    ⟨_, began, later, _, begins, lacks, since, trailing, isLater⟩
  have isBegan := (begins.latest (fun _ => rfl) since).resolve_right lacks
  rcases (begins.brings (fun _ => rfl) lacks isBegan).2 with
    ⟨solver, found, lists⟩
  have inTrace : began ∈ trace := trailing.subset List.mem_cons_self
  have uncalled :
      ¬(.hookCalled id target tag value ::
        (newer ++ .roundBegan id ids :: older)) <:+ began.history := by
    intro impossible
    have shorter := impossible.length_le
    rw [isBegan, List.length_cons, List.length_append] at shorter
    omega
  have called :
      (.hookCalled id target tag value ::
        (newer ++ .roundBegan id ids :: older)) <:+ world.history :=
        ⟨[], isHistory.symm⟩
  have follows : world ∈ later := by
    rcases List.mem_cons.mp isLater with rfl | follows
    · exact absurd called uncalled
    · exact follows
  have chain : (began :: later).IsChain World.Proceeds :=
    (unfolds.proceeds.of_cons).suffix trailing
  rcases exists_first (fun world => (.hookCalled id target tag value ::
      (newer ++ .roundBegan id ids :: older)) <:+ world.history) began chain
    uncalled world follows
      called with ⟨before, after, _, isBefore, calls, lacksCall, hasCall, _, _⟩
  have isAfter := (calls.latest (fun _ => rfl) hasCall).resolve_right lacksCall
  rcases calls.brings (fun _ => rfl) lacksCall isAfter with
    ⟨isHistoryBefore, present, waiting, isPresent, hasValue, between, isWaiting⟩
  have inTraceBefore : before ∈ trace := trailing.subset isBefore
  have passes : began.Passes before := by
    rcases List.mem_cons.mp isBefore with rfl | later
    · exact .refl _
    · exact chain.cons_induction began.Passes _ (fun _ _ proceeds passes =>
        World.Passes.trans passes proceeds.passes) (.refl _) before later
  have inRound : before.InRound id (.roundBegan id ids :: older) :=
    ⟨newer, isHistoryBefore, open_⟩
  rcases passes.keepsValues (unfolds.inStep began inTrace) since inRound
    found with
    ⟨same, isSame, kept⟩
  rw [isPresent] at isSame
  cases isSame
  have listed : target ∈ ids := by
    have admitted := (unfolds.inStep before inTraceBefore id).1
    rw [isHistoryBefore] at admitted between
    have perm := admitted.called_perm open_
    rw [between] at perm
    exact perm.mem_iff.mp (List.mem_append_right _ isWaiting)
  have coherent : solver.Coherent :=
    unfolds.coherent began inTrace id solver found
  refine ⟨began, inTrace, isBegan, solver, found, ?_⟩
  exact kept.value?_eq (coherent.unknownsBelow target (lists.2 target listed))
    hasValue

end Unfolds

/-- Whatever commands and hooks do, hooks of one solver are called one at a
time: before the next one is called, a hook has returned, or it has failed and
its round has ended. As long as a round lasts, the variables of its solver have
the values that they had when it began, and those are the values that hooks are
called with. Each call of a hook by an engine finds a world of the trace, and
leaves one. -/
theorem unfolds_frozen (patience depth : Nat) (commands : List (Command α)) :
    (∃ trace, Unfolds (.ofDepth patience depth) commands trace ∧
        PlaysWith (Activity.Calls.On (Engine.Calls patience) trace)
          (.ofDepth patience depth) .empty commands) ∧
      ∀ trace, Unfolds (.ofDepth patience depth) commands trace →
        ∀ id : SolverId,
          (∀ world ∈ trace,
            ∀ newer between older first firstTag firstValue second secondTag
              secondValue,
              world.history =
                newer ++ .hookCalled id second secondTag secondValue ::
                  (between ++
                    .hookCalled id first firstTag firstValue :: older) →
              .hookReturned id first ∈ between ∨ .roundEnded id ∈ between) ∧
        ∀ ids older,
          (∀ first second, [first, second].Sublist trace →
            (.roundBegan id ids :: older) <:+ first.history →
            second.InRound id (.roundBegan id ids :: older) →
            ∀ former later, first.solvers[id]? = some former →
              second.solvers[id]? = some later →
              ∀ target ∈ former.unknowns.keys, ∀ value,
                later.value? target = some value →
                former.value? target = some value) ∧
          ∀ world ∈ trace, ∀ target tag value newer,
            world.history = .hookCalled id target tag value ::
              (newer ++ .roundBegan id ids :: older) →
            .roundEnded id ∉ newer →
            ∃ began ∈ trace, began.history = .roundBegan id ids :: older ∧
              ∃ solver, began.solvers[id]? = some solver ∧
                solver.value? target = some value := by
  refine ⟨exists_unfolds (Engine.ofDepth_soundWith patience depth) commands, ?_⟩
  intro trace unfolds id
  refine ⟨?_, fun ids older => ⟨?_, ?_⟩⟩
  · intro world member newer between older first _ _ second _ _ isHistory
    have admitted := (unfolds.inStep world member id).1
    rw [isHistory] at admitted
    exact admitted.returned
  · intro first second inOrder since inRound former later isFormer isLater
      target live value
    exact unfolds.value?_eq inOrder since inRound isFormer isLater live
  · intro world member target tag value newer isHistory open_
    exact unfolds.called member isHistory open_

/-- A session in which setting `x` moves `y` too; the hook of `y`, called first,
sets `x` to another value. -/
def contestedCommands : List (Command ℚ) :=
  [.operation (.newSolver "s" true true (.literal (some 0)) 10),
    .operation (.addVariable "s" "x" none (.literal (some 1))),
    .operation (.addVariable "s" "y" none (.literal (some 2))),
    .operation (.addConstraint "s" none
      [(.label "x", .literal (some 1)), (.label "y", .literal (some 1))]
      (.literal (some 3))),
    .observeInline "x"
      (.ofList [(.operation (.askVariable "y" .value), false)]) none,
    .observeInline "y"
      (.ofList
        [(.operation (.setValue "x" (.literal (some 9)) .chained), false)])
      none,
    .operation (.setValue "x" (.literal (some 5)) .chained)]

def called? : Event ℚ → Option (SolverId × VariableId × ℚ)
  | .hookCalled id target _ value => some (id, target, value)
  | .noted _ _ | .roundBegan _ _ | .hookReturned _ _ | .roundEnded _
      | .commandEnded _ _ => none

def bound? : Event ℚ → Option (SolverId × Option (List VariableId))
  | .roundBegan id ids => some (id, some ids)
  | .roundEnded id => some (id, none)
  | .noted _ _ | .hookCalled _ _ _ _ | .hookReturned _ _ | .commandEnded _ _ =>
      none

theorem exists_eq_hookCalled {event : Event ℚ} {id : SolverId}
    {target : VariableId} {value : ℚ}
    (call : called? event = some (id, target, value)) :
    ∃ tag, event = .hookCalled id target tag value := by
  cases event with
  | hookCalled =>
      cases call
      exact ⟨_, rfl⟩
  | noted | roundBegan | hookReturned | roundEnded | commandEnded => cases call

theorem eq_roundBegan {event : Event ℚ} {id : SolverId} {ids : List VariableId}
    (begins : bound? event = some (id, some ids)) :
    event = .roundBegan id ids := by
  cases event with
  | roundBegan =>
      cases begins
      rfl
  | noted | hookCalled | hookReturned | roundEnded | commandEnded =>
      cases begins

theorem drop_of_getElem? {events : List (Event ℚ)} {place : Nat}
    {event : Event ℚ} (found : events[place]? = some event) :
    events.drop place = event :: events.drop (place + 1) := by
  rcases List.getElem?_eq_some_iff.mp found with ⟨within, rfl⟩
  exact List.drop_eq_getElem_cons within

theorem unfolds_frozen_contestedCommands :
    ∃ trace, Unfolds (.ofDepth 9 3) contestedCommands trace ∧
      PlaysWith (Activity.Calls.On (Engine.Calls 9) trace) (.ofDepth 9 3) .empty
        contestedCommands ∧
      ∃ moment ∈ trace, ∃ tag newer older,
        moment.history = .hookCalled 0 0 tag 5 ::
          (newer ++ .roundBegan 0 [1, 0] :: older) ∧
        (newer.filterMap (Event.noteOf 0)).filterMap Note.queued? = [(0, 9)] ∧
        ∃ began ∈ trace, began.history = .roundBegan 0 [1, 0] :: older ∧
          ∃ solver, began.solvers[0]? = some solver ∧
            solver.value? 0 = some 5 := by
  rcases unfolds_frozen 9 3 contestedCommands with
    ⟨⟨trace, unfolds, plays⟩, frozen⟩
  have ended : ∃ done ∈ play (.ofDepth 9 3) .empty contestedCommands,
      done.world.history[17]?.bind called? = some (0, 0, 5) ∧
      done.world.history[22]?.bind bound? = some (0, some [1, 0]) ∧
      (((done.world.history.drop 18).take 4).filterMap
        (Event.noteOf 0)).filterMap Note.queued? = [(0, 9)] ∧
      ∀ event ∈ (done.world.history.drop 18).take 4, bound? event = none := by
    decide +kernel
  rcases ended with ⟨done, isStep, called, begun, queued, unbounded⟩
  rcases Option.bind_eq_some_iff.mp called with ⟨call, isCall, calls⟩
  rcases Option.bind_eq_some_iff.mp begun with ⟨begins, isBegin, isRound⟩
  rcases exists_eq_hookCalled calls with ⟨tag, rfl⟩
  cases eq_roundBegan isRound
  have happened := List.drop_suffix 17 done.world.history
  rw [drop_of_getElem? isCall, ← List.take_append_drop 4 (List.drop _ _),
    List.drop_drop, drop_of_getElem? isBegin] at happened
  have member : done.world ∈ trace :=
    unfolds.steps.subset (List.mem_map_of_mem isStep)
  rcases unfolds.moments done.world member _ _ (fun _ => rfl) happened with
    ⟨moment, inTrace, isMoment⟩
  have open_ : .roundEnded 0 ∉ (done.world.history.drop 18).take 4 := by
    intro closed
    cases unbounded _ closed
  have value := ((frozen trace unfolds 0).2 [1, 0] _).2 moment inTrace 0 tag 5 _
    isMoment open_
  exact ⟨trace, unfolds, plays, moment, inTrace, tag, _, _, isMoment, queued,
    value⟩

end Session

end LiveLinear
