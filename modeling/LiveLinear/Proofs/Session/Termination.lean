import Mathlib.Data.Finset.Card
import Mathlib.Order.Interval.Finset.Nat
import LiveLinear.Proofs.Session.Outermost
import LiveLinear.Proofs.Session.Tame

namespace LiveLinear

/-! # Termination

With tame hooks, every command comes to an end. A solver whose hooks are being
called only puts work off, so that calls are nested no deeper than there are
solvers; and the work that one solver takes up after a round is bounded by its
cascade limit. -/

open Activity (Runs)

variable {α : Type}

/-! ## Idle solvers -/

namespace World

variable {world before after : World α} {id : SolverId}

/-- The solvers whose hooks are not being called. -/
def idle (world : World α) : Finset SolverId :=
  (Finset.range world.solvers.length).filter fun id =>
    world.dispatches id = false

theorem mem_idle : id ∈ world.idle ↔ world.At id fun solver =>
    solver.dispatching = false := by
  rw [idle, Finset.mem_filter, Finset.mem_range]
  constructor
  · rintro ⟨inRange, notDispatching⟩
    have found := List.getElem?_eq_getElem inRange
    rw [dispatches_of_some found] at notDispatching
    exact ⟨_, found, notDispatching⟩
  · rintro ⟨solver, found, notDispatching⟩
    refine ⟨(List.getElem?_eq_some_iff.mp found).1, ?_⟩
    rw [dispatches_of_some found]
    exact notDispatching

theorem idle_empty : (World.empty : World α).idle = ∅ :=
  rfl

theorem idle_eq (length : after.solvers.length = before.solvers.length)
    (same : ∀ id, after.dispatches id = before.dispatches id) :
    after.idle = before.idle := by
  simp only [idle, length, same]

theorem idle_of_adopt {solver : Solver α} {draft : Draft α}
    (found : world.solvers[id]? = some solver)
    (same : draft.solver.dispatching = solver.dispatching) :
    (world.adopt id draft).idle = world.idle :=
  idle_eq (List.length_set ..) (dispatches_adopt found same)

theorem idle_of_mark {change : Solver α → Solver α}
    (same : ∀ solver : Solver α,
      (change solver).dispatching = solver.dispatching) :
    (world.change id change).idle = world.idle :=
  idle_eq (List.length_modify ..) (dispatches_change_of_same same)

/-- At most those solvers are idle that have been before or that are new. -/
theorem KeepsPhases.card_idle (continues : before.KeepsPhases after) :
    after.idle.card ≤ before.idle.card +
      (after.solvers.length - before.solvers.length) := by
  have covered : after.idle ⊆
      before.idle ∪ Finset.Ico before.solvers.length after.solvers.length := by
    intro id member
    rw [Finset.mem_union, Finset.mem_Ico]
    rcases mem_idle.mp member with ⟨later, isLater, notDispatching⟩
    cases found : before.solvers[id]? with
    | none =>
        exact .inr ⟨List.getElem?_eq_none_iff.mp found,
          (List.getElem?_eq_some_iff.mp isLater).1⟩
    | some former =>
        rcases continues.old id former found with ⟨same, isSame, phase⟩
        rw [isLater] at isSame
        cases isSame
        exact .inl
          (mem_idle.mpr
            ⟨former, found, phase.dispatching.symm.trans notDispatching⟩)
  calc after.idle.card
      ≤ (before.idle ∪
        Finset.Ico before.solvers.length after.solvers.length).card :=
        Finset.card_le_card covered
    _ ≤ before.idle.card +
      (Finset.Ico before.solvers.length after.solvers.length).card :=
        Finset.card_union_le _ _
    _ = before.idle.card + (after.solvers.length - before.solvers.length) := by
        rw [Nat.card_Ico]

/-- While hooks of a solver are called, it is not idle. -/
theorem card_idle_beginRound {targets : List VariableId}
    (notDispatching : world.At id fun solver => solver.dispatching = false) :
    ((world.record (.roundBegan id targets)).change id fun solver =>
      { solver with dispatching := true }).idle.card < world.idle.card := by
  have covered :
    ((world.record (.roundBegan id targets)).change id fun solver =>
      { solver with dispatching := true }).idle ⊆ world.idle.erase id := by
    intro other member
    rcases mem_idle.mp member with ⟨later, isLater, stillIdle⟩
    rw [Finset.mem_erase]
    by_cases same : id = other
    · subst other
      rcases notDispatching with ⟨solver, found, _⟩
      have recorded : (world.record (.roundBegan id targets)).solvers[id]? =
        some solver := found
      rw [getElem?_change_self _ recorded] at isLater
      cases isLater
      cases stillIdle
    · rw [getElem?_change_of_ne _ same] at isLater
      exact ⟨Ne.symm same, mem_idle.mpr ⟨later, isLater, stillIdle⟩⟩
  exact Nat.lt_of_le_of_lt (Finset.card_le_card covered)
    (Finset.card_erase_lt_of_mem (mem_idle.mpr notDispatching))

/-! ## Outside of the rounds of a solver -/

structure Stands (world : World α) (id : SolverId)
    (allowed : SolverId → Int → Prop) : Prop where
  but : world.SettledBut id
  idle : world.At id fun solver => solver.dispatching = false
  obeys : world.Obeys allowed

namespace Stands

variable {allowed : SolverId → Int → Prop} {solver : Solver α}

theorem dispatching (stands : world.Stands id allowed)
    (found : world.solvers[id]? = some solver) :
    solver.dispatching = false := by
  rcases stands.idle with ⟨same, isSame, idle⟩
  rw [found] at isSame
  cases isSame
  exact idle

theorem adopt {draft : Draft α} (stands : world.Stands id allowed)
    (found : world.solvers[id]? = some solver)
    (dispatching : draft.solver.dispatching = solver.dispatching)
    (settings : draft.solver.settings = solver.settings) :
    (world.adopt id draft).Stands id allowed :=
  ⟨stands.but.adopt found,
    .adopt found (dispatching.trans (stands.dispatching found)),
    (Keeps.adopt found settings stands.obeys).1⟩

theorem startDraining (stands : world.Stands id allowed) :
    (world.change id fun solver => { solver with draining := true }).Stands id
      allowed := by
  have marks : world.Keeps allowed 0
      (world.change id fun solver => { solver with draining := true }) :=
      .mark fun _ => rfl
  exact ⟨stands.but.change, stands.idle.change fun _ idle =>
    idle, (marks stands.obeys).1⟩

end Stands

end World

/-! ## Actions that come to an end -/

namespace Action

variable {β γ : Type} {before middle after : World α}

def Ends (action : Action α β) (before : World α) : Prop :=
  ∃ result after, action.Yields before result after

namespace Ends

theorem of_yields {action : Action α β} {result : Except (Failure α) β}
    (yields : action.Yields before result after) : Ends action before :=
  ⟨result, after, yields⟩

theorem pure (value : β) : Ends (Pure.pure value : Action α β) before :=
  of_yields (yields_pure.mpr ⟨rfl, rfl⟩)

theorem throw (failure : Failure α) :
    Ends (throw failure : Action α β) before :=
  of_yields (yields_throw.mpr ⟨rfl, rfl⟩)

theorem bind {action : Action α β} {next : β → Action α γ}
    (first : Ends action before)
    (later : ∀ value middle, action.Yields before (.ok value) middle →
      Ends (next value) middle) :
    Ends (action >>= next) before := by
  rcases first with ⟨result, middle, yields⟩
  cases result with
  | error failure =>
      exact of_yields (yields_bind.mpr (.inl ⟨failure, yields, rfl⟩))
  | ok value =>
      rcases later value middle yields with ⟨result, after, rest⟩
      exact of_yields ((yields_bind_of_ok yields).mpr rest)

theorem outcome_bind {action : Action α β}
    {next : Except (Failure α) β → Action α γ} (first : Ends action before)
    (later : ∀ result middle, action.Yields before result middle →
      Ends (next result) middle) :
    Ends (action.outcome >>= next) before := by
  rcases first with ⟨result, middle, yields⟩
  rcases later result middle yields with ⟨final, after, rest⟩
  exact of_yields (yields_outcome_bind.mpr ⟨result, middle, yields, rest⟩)

theorem get_bind {next : World α → Action α β}
    (later : Ends (next before) before) :
    Ends (get >>= next) before :=
  later

theorem record_bind {event : Event α} {next : Unit → Action α β}
    (later : Ends (next ()) (before.record event)) :
    Ends (record event >>= next) before :=
  later

theorem update_bind {id : SolverId} {change : Solver α → Solver α}
    {next : Unit → Action α β}
    (later : Ends (next ()) (before.change id change)) :
    Ends (update id change >>= next) before :=
  later

theorem ofOutcome (outcome : Except (Failure α) β) :
    Ends (ofOutcome outcome) before :=
  of_yields (yields_ofOutcome.mpr ⟨rfl, rfl⟩)

theorem solver_bind {id : SolverId} {next : Solver α → Action α β}
    (later : ∀ solver, before.solvers[id]? = some solver →
      Ends (next solver) before) :
    Ends (solver id >>= next) before := by
  cases found : before.solvers[id]? with
  | none => exact of_yields (yields_solver_bind.mpr (.inl ⟨found, rfl, rfl⟩))
  | some solver =>
      rcases later solver found with ⟨result, after, rest⟩
      exact of_yields (yields_solver_bind.mpr (.inr ⟨solver, found, rest⟩))

theorem edit (id : SolverId) (change : Edit α β) :
    Ends (Action.edit id change) before := by
  cases found : before.solvers[id]? with
  | none => exact of_yields (yields_edit.mpr (.inl ⟨found, rfl, rfl⟩))
  | some solver =>
      exact of_yields (edit_of_yields found (Edit.yields_run change _))

theorem of_aside {free : Prop} {action : Action α β}
    (quiet : Aside free action) :
    Ends action before := by
  rcases quiet before with ⟨result, after, yields, _⟩
  exact of_yields yields

theorem of_reads {action : Action α β} (reads : Reads action) :
    Ends action before := by
  rcases reads before with ⟨result, yields⟩
  exact of_yields yields

end Ends

end Action

/-! ## Engines that have room -/

abbrev World.Patient (engine : Engine α) (world : World α) : Prop :=
  world.Obeys fun _ limit => limit < engine.patience

abbrev Activity.Patient (engine : Engine α) (activity : Activity α) : Prop :=
  activity.Allows fun _ limit => limit < engine.patience

/-- Whether the engine runs every tame hook to its end, as long as fewer than
`room` solvers are idle. -/
def Engine.Answers (engine : Engine α) (room : Nat) : Prop :=
  ∀ body value (before : World α), body.isTame = true → before.Settled →
    before.Patient engine → before.idle.card < room →
    Action.Ends (engine.call body value) before

theorem World.switched {engine : Engine α} {before : World α} (id : SolverId)
    (autoSolve : Bool) (settled : before.Settled)
    (patient : before.Patient engine) :
    (before.change id fun solver => solver.setAuto autoSolve).Settled ∧
      (before.change id fun solver => solver.setAuto autoSolve).Patient engine ∧
      (before.change id fun solver => solver.setAuto autoSolve).idle =
        before.idle := by
  have marked : before.Keeps (fun _ limit => limit < engine.patience) 0
      (before.change id fun solver => solver.setAuto autoSolve) :=
      .mark fun _ => rfl
  exact ⟨World.Settled.setSettings settled, (marked patient).1,
    World.idle_of_mark fun _ => rfl⟩

theorem Action.notify_ends {engine : Engine α} {room : Nat} {before : World α}
    {id : SolverId} (answers : engine.Answers room) (target : VariableId)
    (settled : before.Settled) (patient : before.Patient engine)
    (fits : before.idle.card < room) :
    Ends (notify engine id target) before := by
  apply Ends.solver_bind
  intro solver found
  split
  · next name value lock hook present =>
      apply Ends.get_bind
      split
      · exact .pure _
      · next tag body known =>
          have tame := patient.hooks _ (List.mem_of_getElem? known)
          apply Ends.record_bind
          apply Ends.bind
          · exact answers body value _ tame settled
              ⟨patient.hooks, patient.limits⟩ fits
          · exact fun _ _ _ => .of_yields (yields_record.mpr ⟨rfl, rfl⟩)
  · exact .pure _

variable [Scalar α]

/-! ## What activities leave -/

theorem Activity.RunsWith.leaves {known : Activity.Calls _}
    {allowed : SolverId → Int → Prop} {activity : Activity α}
    {before after : World α} {result : Ending α}
    (runs : activity.RunsWith known before result after)
    (starts : activity.Starts before) (within : activity.Allows allowed)
    (obeys : before.Obeys allowed) :
    activity.Ends result after ∧ after.Obeys allowed ∧
      after.idle.card ≤ before.idle.card + activity.founds := by
  rcases runs.settles starts with ⟨ends, continues⟩
  rcases runs.keeps within obeys with ⟨stillObeys, fewer⟩
  have idle := continues.card_idle
  exact ⟨ends, stillObeys, by omega⟩

namespace Action

variable {engine : Engine α} {room : Nat} {before after : World α}
  {id : SolverId}

section Standing

variable {allowed : SolverId → Int → Prop} {result : Ending α}

theorem round_stands (sound : engine.Sound) {targets : List VariableId}
    (stands : before.Stands id allowed)
    (yields : (round engine id targets).Yields before result after) :
    after.Stands id allowed ∧ after.idle.card ≤ before.idle.card := by
  have runs := runs_round sound yields
  have continues := (runs.settles ⟨stands.but, stands.idle⟩).2
  rcases runs.leaves ⟨stands.but, stands.idle⟩ trivial stands.obeys with
    ⟨⟨but, _⟩, obeys, fewer⟩
  exact ⟨⟨but, continues.idle stands.idle, obeys⟩, fewer⟩

theorem serve_stands (sound : engine.Sound) {solver : Solver α}
    {work : Edit α (List VariableId)} (stands : before.Stands id allowed)
    (found : before.solvers[id]? = some solver)
    (next : solver.nextDeferred = some work)
    (yields : (serve engine id work).Yields before result after) :
    after.Stands id allowed ∧ after.idle.card ≤ before.idle.card := by
  rcases serve_cases found yields with ⟨_, draft, edited, _, rfl⟩
    | ⟨moved, draft, edited, held⟩
  · have takes := Solver.takes_of_nextDeferred next edited
    rw [World.idle_of_adopt found takes.dispatching]
    exact ⟨stands.adopt found takes.dispatching takes.settings, Nat.le_refl _⟩
  · have takes := Solver.takes_of_nextDeferred next edited
    rw [← World.idle_of_adopt found takes.dispatching]
    exact round_stands sound
      (stands.adopt found takes.dispatching takes.settings) held

end Standing

section Dispatch

variable (sound : engine.Sound) (answers : engine.Answers room)
include sound answers

theorem notifyAll_ends (targets : List VariableId) :
    ∀ {before : World α}, before.Settled → before.Patient engine →
      before.idle.card < room → Ends (notifyAll engine id targets) before := by
  induction targets with
  | nil => exact fun _ _ _ => .pure _
  | cons target rest induction =>
      intro before settled patient fits
      apply Ends.bind (notify_ends answers target settled patient fits)
      intro _ middle done
      have called :
          (notifyAll engine id [target]).Yields before (.ok ()) middle :=
        yields_bind.mpr (.inr ⟨(), middle, done, yields_pure.mpr ⟨rfl, rfl⟩⟩)
      rcases (runs_notifyAll sound [target] called).leaves settled trivial
        patient with
        ⟨stillSettled, stillPatient, idle⟩
      exact induction stillSettled stillPatient (Nat.lt_of_le_of_lt idle fits)

theorem round_ends {targets : List VariableId}
    (stands : before.Stands id fun _ limit => limit < engine.patience)
    (fits : before.idle.card ≤ room) :
    Ends (round engine id targets) before := by
  cases targets with
  | nil => exact .pure _
  | cons target rest =>
      simp only [round, List.isEmpty_cons, Bool.false_eq_true, if_false]
      apply Ends.record_bind
      apply Ends.update_bind
      apply Ends.outcome_bind
      -- The solver is not idle while its hooks are called: that leaves room for
      -- their calls.
      · apply notifyAll_ends sound answers _ stands.but.beginRound
        · exact ⟨stands.obeys.hooks, World.Each.change stands.obeys.limits
            (fun _ _ _ holds => holds) fun _ _ holds => holds⟩
        · exact Nat.lt_of_lt_of_le (World.card_idle_beginRound stands.idle) fits
      · intro result middle _
        cases result with
        | ok _ => exact .update_bind (.record_bind (.ofOutcome _))
        | error _ => exact .update_bind (.record_bind (.ofOutcome _))

theorem serve_ends {solver : Solver α} {work : Edit α (List VariableId)}
    (stands : before.Stands id fun _ limit => limit < engine.patience)
    (fits : before.idle.card ≤ room) (found : before.solvers[id]? = some solver)
    (next : solver.nextDeferred = some work) :
    Ends (serve engine id work) before := by
  apply Ends.bind (.edit id work)
  intro moved middle done
  rcases yields_edit.mp done with ⟨lost, _⟩ | ⟨same, draft, isSame, edited, rfl⟩
  · rw [found] at lost
    cases lost
  · rw [found] at isSame
    cases isSame
    have takes := Solver.takes_of_nextDeferred next edited
    apply round_ends sound answers
      (stands.adopt found takes.dispatching takes.settings)
    rw [World.idle_of_adopt found takes.dispatching]
    exact fits

/-- The rounds that are granted outlast the cascade limit. -/
theorem drain_ends (patience : Nat) :
    ∀ {taken : Nat} {before : World α},
      (before.Stands id fun _ limit => limit < engine.patience) →
      before.idle.card ≤ room → engine.patience ≤ taken + patience →
      0 < patience → Ends (drain engine id taken patience) before := by
  induction patience with
  | zero =>
      intro _ _ _ _ _ some
      exact absurd some (Nat.lt_irrefl 0)
  | succ patience induction =>
      intro taken before stands fits enough _
      rw [drain_succ]
      apply Ends.solver_bind
      intro solver found
      cases next : solver.nextDeferred with
      | none => exact .pure _
      | some work =>
          dsimp only
          split
          · exact .throw _
          · next within =>
              -- The item is within the cascade limit, which is below the rounds
              -- that are granted.
              have limit := stands.obeys.limits id solver found
              apply Ends.bind (serve_ends sound answers stands fits found next)
              intro _ middle served
              rcases serve_stands sound stands found next served with
                ⟨stillStands, fewer⟩
              exact induction stillStands (by omega) (by omega) (by omega)

variable (grants : 0 < engine.patience)
include grants

theorem settle_ends
    (stands : before.Stands id fun _ limit => limit < engine.patience)
    (fits : before.idle.card ≤ room) : Ends (settle engine id) before := by
  apply Ends.solver_bind
  intro solver found
  split
  · exact .pure _
  · have idle :
        (before.change id fun solver => { solver with draining := true }).idle =
          before.idle := World.idle_of_mark fun _ => rfl
    apply Ends.update_bind
    apply Ends.outcome_bind
    · apply drain_ends sound answers engine.patience stands.startDraining
      · rw [idle]
        exact fits
      · exact Nat.le_add_left _ _
      · exact grants
    · intro result middle _
      cases result with
      | ok _ => exact .update_bind (.ofOutcome _)
      | error _ => exact .update_bind (.ofOutcome _)

/-- After its own edit, an operation comes to an end. -/
theorem announce_ends {task : Task α} {solver : Solver α} {draft : Draft α}
    {moved : List VariableId} (settled : before.Settled)
    (patient : before.Patient engine) (fits : before.idle.card ≤ room)
    (found : before.solvers[id]? = some solver)
    (yields : task.edit.Yields ⟨solver, []⟩ (.ok moved) draft) :
    Ends (announce engine id moved) (before.adopt id draft) := by
  have steady := Task.edit_steady _ _ _ _ yields
  cases moved with
  | nil => exact .pure _
  | cons target rest =>
      have idle : solver.dispatching = false :=
        Task.idle_of_moved yields (List.cons_ne_nil _ _)
      have stands : before.Stands id fun _ limit => limit < engine.patience :=
        ⟨settled.but id, ⟨solver, found, idle⟩, patient⟩
      have standsThen := stands.adopt found steady.dispatching steady.settings
      have fitsThen : (before.adopt id draft).idle.card ≤ room :=
        World.idle_of_adopt found steady.dispatching ▸ fits
      simp only [announce, List.isEmpty_cons, Bool.false_eq_true, if_false]
      apply Ends.bind (round_ends sound answers standsThen fitsThen)
      intro _ middle held
      rcases round_stands sound standsThen held with ⟨stillStands, fewer⟩
      exact settle_ends sound answers grants stillStands
        (Nat.le_trans fewer fitsThen)

theorem perform_ends {task : Task α} (settled : before.Settled)
    (patient : before.Patient engine) (fits : before.idle.card ≤ room) :
    Ends (perform engine id task.edit) before := by
  apply Ends.bind (.edit id _)
  intro moved middle done
  rcases yields_edit.mp done with
    ⟨_, impossible, _⟩ | ⟨solver, draft, found, edited, rfl⟩
  · cases impossible
  · exact announce_ends sound answers grants settled patient fits found edited

theorem announceConstraint_ends {terms : List (Argument × Option α)}
    {total : Option α} (settled : before.Settled)
    (patient : before.Patient engine) (fits : before.idle.card ≤ room) :
    Ends (announceConstraint engine id terms total) before := by
  apply Ends.bind (.edit id _)
  intro added middle done
  rcases yields_edit.mp done with
    ⟨_, impossible, _⟩ | ⟨solver, draft, found, edited, rfl⟩
  · cases impossible
  · have edited := Task.yields_addConstraint.mpr ⟨_, edited, rfl⟩
    exact .bind
      (announce_ends sound answers grants settled patient fits found edited)
      fun _ _ _ => .pure _

theorem Shaped.ends {β : Type} {context : Option α} {command : Command α}
    {action : Action α β} (shaped : Shaped engine context command action) :
    ∀ {before : World α}, before.Settled → before.Patient engine →
      before.idle.card ≤ room → Ends action before := by
  induction shaped with
  | throw failure => exact fun _ _ _ => .throw failure
  | aside _ _ quiet => exact fun _ _ _ => .of_aside quiet
  | looking quiet _ induction =>
      intro before settled patient fits
      apply Ends.bind (.of_aside quiet)
      intro value middle done
      have like := quiet.like done
      have idle : middle.idle = before.idle := by
        refine World.idle_eq (congrArg List.length like.solvers) fun id => ?_
        rw [World.dispatches, like.solvers, World.dispatches]
      exact induction value (World.Each.of_like settled like)
        (patient.of_like like) (idle ▸ fits)
  | closing _ closes induction =>
      intro before settled patient fits
      exact .bind (induction settled patient fits) fun value _ _ =>
        .of_aside (closes value).aside
  | founding => exact fun _ _ _ => .of_yields (yields_addSolver.mpr ⟨rfl, rfl⟩)
  | changing => exact fun _ _ _ => .of_yields (yields_update.mpr ⟨rfl, rfl⟩)
  | defining => exact fun _ _ _ => .of_yields (yields_addHook.mpr ⟨rfl, rfl⟩)
  | observing =>
      intro before _ _ _
      apply Ends.bind (.of_yields (yields_addHook.mpr ⟨rfl, rfl⟩))
      exact fun _ _ _ => .bind (.edit _ _) fun _ _ _ => .pure _
  | editing => exact fun _ _ _ => .edit _ _
  | performing => exact perform_ends sound answers grants
  | adding => exact announceConstraint_ends sound answers grants

end Dispatch

/-! ## Commands -/

variable {context : Option α}

theorem next_ends (sound : engine.Sound) {command : Command α} {guarded : Bool}
    {rest : Script α}
    (within : (Activity.command context command).Patient engine)
    (settled : before.Settled) (patient : before.Patient engine)
    (fits : before.idle.card + (command.founds + rest.founds) ≤ room)
    (commandEnds : Ends (execute engine context command) before)
    (restEnds : ∀ {start : World α}, start.Settled → start.Patient engine →
      start.idle.card + rest.founds ≤ room →
      Ends (executeScript engine context rest) start) :
    Ends (executeScript engine context (.next command guarded rest))
      before := by
  rw [executeScript]
  apply Ends.outcome_bind commandEnds
  intro result middle ran
  apply Ends.record_bind
  rcases (execute_runs sound context command _ _ _ ran).leaves settled within
    patient with
    ⟨stillSettled, stillPatient, fewer⟩
  have fewer : middle.idle.card ≤ before.idle.card + command.founds := fewer
  have goesOn : Ends (executeScript engine context rest)
      (middle.record (.commandEnded command result)) :=
    restEnds stillSettled ⟨stillPatient.hooks, stillPatient.limits⟩
      (Nat.le_trans (Nat.add_le_add_right fewer rest.founds) (by omega))
  cases guarded with
  | true => exact goesOn
  | false =>
      apply Ends.bind (.ofOutcome result)
      intro _ last same
      cases (yields_ofOutcome.mp same).2
      exact goesOn

theorem batch_ends (sound : engine.Sound) (answers : engine.Answers room)
    (grants : 0 < engine.patience) {name : String} {body : Script α}
    (within : (Activity.script context body).Patient engine)
    (settled : before.Settled) (patient : before.Patient engine)
    (fits : before.idle.card + body.founds ≤ room)
    (bodyEnds : ∀ {start : World α}, start.Settled → start.Patient engine →
      start.idle.card + body.founds ≤ room →
      Ends (executeScript engine context body) start) :
    Ends (execute engine context (.batch name body)) before := by
  apply Ends.bind (.of_reads (.lookUp _ _))
  intro id middle named
  cases (Reads.lookUp _ _).same named
  apply Ends.solver_bind
  intro solver found
  apply Ends.update_bind
  rcases World.switched id false settled patient with
    ⟨settledThen, patientThen, idle⟩
  apply Ends.outcome_bind (bodyEnds settledThen patientThen (idle ▸ fits))
  intro result middle ran
  apply Ends.update_bind
  have runs := executeScript_runs sound context body _ _ _ ran
  rcases runs.leaves settledThen within patientThen with
    ⟨stillSettled, stillPatient, fewer⟩
  have fewer : middle.idle.card ≤ before.idle.card + body.founds := idle ▸ fewer
  rcases World.switched id solver.settings.autoSolve stillSettled
    stillPatient with
    ⟨settledLast, patientLast, idleLast⟩
  apply Ends.bind (.ofOutcome result)
  intro _ last same
  cases (yields_ofOutcome.mp same).2
  split
  · have fitsLast := idleLast ▸ Nat.le_trans fewer fits
    have solves : Ends (perform engine id Task.solve.edit) _ :=
      perform_ends sound answers grants settledLast patientLast fitsLast
    exact .bind solves fun _ _ _ => .pure _
  · exact .pure _

mutual

/-- With room for the solvers that are idle and for those that it makes, a
command comes to an end. -/
theorem execute_ends (sound : engine.Sound) (answers : engine.Answers room)
    (grants : 0 < engine.patience) (command : Command α) {before : World α}
    (within : (Activity.command context command).Patient engine)
    (settled : before.Settled) (patient : before.Patient engine)
    (fits : before.idle.card + command.founds ≤ room) :
    Ends (execute engine context command) before := by
  have fitsNow : before.idle.card ≤ room := by omega
  cases command with
  | operation operation =>
      exact (operate_shaped operation).ends sound answers grants settled patient
        fitsNow
  | defineHook label body =>
      exact (defineHook_shaped label body).ends sound answers grants settled
        patient fitsNow
  | observe subject listener label =>
      exact (observe_shaped subject listener label).ends sound answers grants
        settled patient fitsNow
  | observeInline subject body label =>
      exact (observeInline_shaped subject body label).ends sound answers grants
        settled patient fitsNow
  | batch name body =>
      simp only [Activity.Patient, Activity.Allows, Command.Allows] at within
      simp only [Command.founds] at fits
      exact batch_ends sound answers grants within settled patient fits
          fun settled patient fits =>
        executeScript_ends sound answers grants body within settled patient fits
termination_by structural command

theorem executeScript_ends (sound : engine.Sound)
    (answers : engine.Answers room) (grants : 0 < engine.patience)
    (script : Script α) {before : World α}
    (within : (Activity.script context script).Patient engine)
    (settled : before.Settled) (patient : before.Patient engine)
    (fits : before.idle.card + script.founds ≤ room) :
    Ends (executeScript engine context script) before := by
  cases script with
  | done => exact .pure _
  | next command guarded rest =>
      simp only [Activity.Patient, Activity.Allows, Script.Allows] at within
      simp only [Script.founds] at fits
      refine next_ends sound within.1 settled patient fits ?_
          fun settled patient fits =>
        executeScript_ends sound answers grants rest within.2 settled
          patient fits
      exact execute_ends sound answers grants command within.1 settled patient
        (by omega)
termination_by structural script

end

end Action

/-! ## Sessions -/

/-- Calls that may be nested as deep as there are idle solvers come to an
end. -/
theorem Engine.ofDepth_answers {patience : Nat} (grants : 0 < patience)
    (depth : Nat) :
    (ofDepth patience depth : Engine α).Answers depth := by
  induction depth with
  | zero =>
      intro body value before _ _ _ impossible
      exact absurd impossible (Nat.not_lt_zero _)
  | succ depth induction =>
      intro body value before tame settled patient fits
      have patient : before.Patient (ofDepth patience depth) := by
        simpa only [World.Patient, patience_ofDepth] using patient
      -- A tame hook makes no solvers, so that idle ones get fewer with each
      -- nested call.
      have fits : before.idle.card + body.founds ≤ depth := by
        rw [body.founds_of_tame tame]
        exact Nat.le_of_lt_succ fits
      refine Action.executeScript_ends (ofDepth_sound patience depth)
        induction ?_ body (body.allows_of_tame _ tame) settled patient fits
      rw [patience_ofDepth]
      exact grants

namespace Session

/-- A session comes to an end, if its hooks are tame, if it makes no more
solvers than calls of hooks may be nested, and if no cascade limit is too high
for the rounds that are granted. -/
theorem play_length {patience depth : Nat} (grants : 0 < patience)
    (commands : List (Command α)) :
    ∀ {world : World α}, world.Settled →
      world.Patient (.ofDepth patience depth) →
      (∀ command ∈ commands, command.Allows fun _ limit => limit < patience) →
      world.idle.card + (commands.map Command.founds).sum ≤ depth →
      (play (.ofDepth patience depth) world commands).length =
        commands.length := by
  have sound : (Engine.ofDepth patience depth : Engine α).Sound :=
    Engine.ofDepth_sound patience depth
  have answers : (Engine.ofDepth patience depth : Engine α).Answers depth :=
    Engine.ofDepth_answers grants depth
  induction commands with
  | nil => exact fun _ _ _ _ => rfl
  | cons command rest induction =>
      intro world settled patient allows fits
      simp only [List.map_cons, List.sum_cons] at fits
      simp only [List.mem_cons, forall_eq_or_imp] at allows
      have within :
          (Activity.command none command).Patient
            (.ofDepth patience depth) := by
        rw [Activity.Patient, Engine.patience_ofDepth]
        exact allows.1
      have ends :
          Action.Ends (Action.execute (.ofDepth patience depth) none command)
            world :=
        Action.execute_ends sound answers (by simpa using grants) command within
          settled patient (by omega)
      rcases ends with ⟨outcome, after, yields⟩
      rcases step_of_yields yields with ⟨events, stepped⟩
      have runs := Action.execute_runs sound none command _ _ _ yields
      rcases runs.leaves settled within patient with
        ⟨stillSettled, stillPatient, fewer⟩
      have fewer : after.idle.card ≤ world.idle.card + command.founds := fewer
      rw [play, stepped]
      simp only [List.length_cons]
      rw [induction stillSettled stillPatient allows.2 (by omega)]

end Session

end LiveLinear
