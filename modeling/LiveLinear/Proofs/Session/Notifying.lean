import LiveLinear.Proofs.Session.Outermost
import LiveLinear.Proofs.Solver.Notifying

namespace LiveLinear

/-! # Exact notification

Which hooks are called after an edit: those of the variables that it announces,
in order, as far as they listen when their turn comes, and each with the value
that has been written. -/

variable {α : Type}

theorem Event.filter_rounds_noted (id solver : SolverId)
    (notes : List (Note α)) :
    (notes.map (Event.noted solver)).filter (Event.rounds id) = [] := by
  simp [Event.rounds]

/-! ## Turns -/

namespace World

def due (world : World α) (id : SolverId) (target : VariableId) :
    List (Event α) :=
  match world.solvers[id]?.bind fun solver => world.listener solver target with
  | some (hook, value) =>
      [.hookCalled id target hook.tag value, .hookReturned id target]
  | none => []

theorem due_of_listener {world : World α} {id : SolverId} {solver : Solver α}
    {target : VariableId} {hook : Hook α} {value : α}
    (found : world.solvers[id]? = some solver)
    (listens : world.listener solver target = some (hook, value)) :
    world.due id target =
      [.hookCalled id target hook.tag value, .hookReturned id target] := by
  rw [due, found, Option.bind_some, listens]

theorem due_of_nobody {world : World α} {id : SolverId} {solver : Solver α}
    {target : VariableId} (found : world.solvers[id]? = some solver)
    (nobody : world.listener solver target = none) :
    world.due id target = [] := by
  rw [due, found, Option.bind_some, nobody]

end World

namespace Session

/-- Variables are notified one after another, and no hook fails: the variables
in order, each with the world in which its turn comes. -/
inductive Notifies (engine : Engine α) (id : SolverId) :
    World α → List (VariableId × World α) → World α → Prop
  | done (world : World α) : Notifies engine id world [] world
  | turn {target : VariableId}
      (first : (Action.notify engine id target).Yields before (.ok ()) middle)
      (later : Notifies engine id middle turns after) :
      Notifies engine id before ((target, before) :: turns) after

/-- A round of hooks for the variables that have been announced when `written`
had been written, in which no hook fails: what happens in it, and the turn of
each variable. -/
structure Rings (engine : Engine α) (id : SolverId) (written : Solver α)
    (moved : List VariableId) (before : World α) (events : List (Event α))
    (turns : List (VariableId × World α)) (after : World α) : Prop where
  history :
    after.history = .roundEnded id ::
      (events.reverse ++ .roundBegan id moved :: before.history)
  notifies : ∃ last, Notifies engine id
    ((before.record (.roundBegan id moved)).change id
      fun solver => { solver with dispatching := true }) turns last
  order : turns.map Prod.fst = moved
  once : moved.Nodup
  /-- The hooks are called in turn, and there is no other round of the solver
  meanwhile. -/
  calls : events.filter (Event.rounds id) = turns.flatMap fun turn =>
    turn.2.due id turn.1
  /-- Everything has been written before the first turn, and stays so until the
  last one. -/
  values : ∀ turn ∈ turns, ∃ later, turn.2.solvers[id]? = some later ∧
    written.KeepsValues later ∧ ∀ hook value,
      turn.2.listener later turn.1 = some (hook, value) →
      written.value? turn.1 = some value

variable {engine : Engine α} {before after : World α} {id : SolverId}

theorem exists_notifies {targets : List VariableId} :
    ∀ {before : World α},
      (Action.notifyAll engine id targets).Yields before (.ok ()) after →
      ∃ turns, Notifies engine id before turns after ∧
        turns.map Prod.fst = targets := by
  induction targets with
  | nil =>
      intro before yields
      rw [(Action.yields_pure.mp yields).2]
      exact ⟨[], .done _, rfl⟩
  | cons target rest induction =>
      intro before yields
      rcases Action.yields_bind.mp yields with
        ⟨_, _, impossible⟩ | ⟨_, middle, done, later⟩
      · cases impossible
      · rcases induction later with ⟨turns, notifies, order⟩
        exact ⟨(target, before) :: turns, .turn done notifies,
          congrArg (List.cons target) order⟩

end Session

/-! ## While hooks are called -/

namespace World

def Hushes (before after : World α) (id : SolverId) : Prop :=
  before.Busy id → ∃ events former later,
    after.history = events ++ before.history ∧
    events.filter (Event.rounds id) = [] ∧ before.solvers[id]? = some former ∧
    after.solvers[id]? = some later ∧ former.KeepsValues later ∧
    later.dispatching = true

variable {world before middle after : World α} {id other : SolverId}

namespace Hushes

theorem busy (hushes : before.Hushes after id) (busy : before.Busy id) :
    after.Busy id := by
  rcases hushes busy with ⟨_, _, later, _, _, _, found, _, dispatching⟩
  exact ⟨later, found, dispatching⟩

theorem trans (left : before.Hushes middle id)
    (right : middle.Hushes after id) :
    before.Hushes after id := by
  intro busy
  rcases left busy with
    ⟨earlier, former, between, isMiddle, hushed, found, isBetween, kept, _⟩
  rcases right (left.busy busy) with
    ⟨events, same, later, isAfter, hushedToo, isSame, isLater, keptToo,
      dispatching⟩
  rw [isBetween] at isSame
  cases isSame
  refine ⟨events ++ earlier, former, later, ?_, ?_, found, isLater,
    kept.trans keptToo, dispatching⟩
  · rw [isAfter, isMiddle, List.append_assoc]
  · rw [List.filter_append, hushed, hushedToo, List.append_nil]

theorem of_marks (events : List (Event α))
    (history : after.history = events ++ before.history)
    (hushed : events.filter (Event.rounds id) = [])
    (marks : ∀ solver, before.solvers[id]? = some solver → ∃ later,
      after.solvers[id]? = some later ∧ solver.KeepsValues later ∧
      later.dispatching = solver.dispatching) :
    before.Hushes after id := by
  rintro ⟨solver, found, dispatching⟩
  rcases marks solver found with ⟨later, isLater, kept, same⟩
  exact ⟨events, solver, later, history, hushed, found, isLater, kept,
    same.trans dispatching⟩

theorem of_same (events : List (Event α))
    (history : after.history = events ++ before.history)
    (hushed : events.filter (Event.rounds id) = [])
    (same : ∀ solver, before.solvers[id]? = some solver →
      after.solvers[id]? = some solver) :
    before.Hushes after id :=
  of_marks events history hushed fun solver found =>
    ⟨solver, same solver found, .refl solver, rfl⟩

theorem refl (world : World α) (id : SolverId) : world.Hushes world id :=
  of_same [] rfl rfl fun _ found => found

theorem setSettings {change : Settings α → Settings α} :
    world.Hushes (world.change other fun solver => solver.setSettings change)
      id := by
  by_cases same : other = id
  · subst other
    exact of_marks [] rfl rfl fun solver found =>
      ⟨_, getElem?_change_self _ found, .of_unknowns rfl rfl, rfl⟩
  · exact of_same [] rfl rfl fun _ found =>
      (getElem?_change_of_ne _ same).trans found

theorem adopt_of_ne {draft : Draft α} (different : other ≠ id) :
    world.Hushes (world.adopt other draft) id := by
  refine of_same _ rfl (Event.filter_rounds_noted id other draft.notes)
    fun solver found => ?_
  rw [getElem?_adopt_of_ne draft different]
  exact found

variable [Scalar α]

theorem worked {task : Task α} {solver : Solver α} {draft : Draft α}
    {result : Except (Failure α) (List VariableId)}
    (found : world.solvers[other]? = some solver)
    (yields : task.edit.Yields ⟨solver, []⟩ result draft) :
    world.Hushes (world.adopt other draft) id := by
  by_cases same : other = id
  · subst other
    intro busy
    have dispatching := busy.holds found
    have steady := Task.edit_steady _ _ _ _ yields
    exact ⟨_, solver, draft.solver, rfl,
      Event.filter_rounds_noted _ _ draft.notes, found,
      getElem?_adopt_self draft found,
      (Task.edit_waits _ _ _ _ yields dispatching).2.1,
      steady.dispatching.trans dispatching⟩
  · exact adopt_of_ne same

end Hushes

variable [Scalar α]

theorem Meanwhile.hushes
    (step : Meanwhile (Event.rounds id · = false) id before after) :
    before.Hushes after id := by
  cases step with
  | relabelled like =>
      refine .of_same [] like.history rfl fun solver found => ?_
      rw [like.solvers]
      exact found
  | recorded hushed _ =>
      exact .of_same [_] rfl (by simp [hushed]) fun _ found => found
  | founded =>
      exact .of_same [] rfl rfl fun _ found => getElem?_addSolver_of_some found
  | defined => exact .of_same [] rfl rfl fun _ found => found
  | set => exact .setSettings
  | changed different =>
      exact .of_same [] rfl rfl fun _ found =>
        (getElem?_change_of_ne _ different).trans found
  | worked found yields => exact .worked found yields
  | resumed different => exact .adopt_of_ne different

end World

variable [Scalar α]

/-- Whatever goes on inside a hook of a solver, its rounds stand still. -/
theorem Activity.RunsWith.hushes {known : Activity.Calls _}
    {activity : Activity α} {before after : World α} {result : Ending α}
    (runs : activity.RunsWith known before result after) (id : SolverId)
    (within : activity.Within (Event.rounds id · = false) id) :
    before.Hushes after id := by
  intro busy
  have steps := runs.lasts (fun _ foreign => foreign) within busy
  have hushes : before.Hushes after id := by
    clear runs
    induction steps with
    | refl => exact .refl before id
    | tail _ step induction => exact induction.trans step.hushes
  exact hushes busy

/-! ## One round -/

namespace Session

variable {engine : Engine α} {before middle after : World α} {id : SolverId}
  {target : VariableId} {turns : List (VariableId × World α)}

/-- When the turn of a variable comes, just the call that is due is made. -/
theorem notify_due (sound : engine.Sound) (busy : before.Busy id)
    (yields : (Action.notify engine id target).Yields before (.ok ()) after) :
    ∃ events : List (Event α), ∃ former later,
      after.history = events.reverse ++ before.history ∧
      events.filter (Event.rounds id) = before.due id target ∧
      before.solvers[id]? = some former ∧ after.solvers[id]? = some later ∧
      former.KeepsValues later ∧ later.dispatching = true := by
  rcases Action.notify_cases sound yields with
    ⟨lost, _⟩ | ⟨solver, found, nobody | listens⟩
  · rcases busy with ⟨solver, found, _⟩
    rw [lost] at found
    cases found
  · rcases nobody with ⟨nobody, _, rfl⟩
    rcases busy with ⟨same, isSame, dispatching⟩
    rw [found] at isSame
    cases isSame
    exact ⟨[], solver, solver, rfl, (World.due_of_nobody found nobody).symm,
      found, found, .refl solver, dispatching⟩
  · rcases listens with
      ⟨hook, value, listens, ⟨_, impossible, _⟩ | ⟨middle, _, rfl, _, runs⟩⟩
    · cases impossible
    · rcases runs.hushes id trivial busy with
        ⟨events, former, later, history, hushed, isFormer, isLater, kept⟩
      refine ⟨.hookCalled id target hook.tag value :: events.reverse ++
        [.hookReturned id target], former, later, ?_, ?_, isFormer,
        isLater, kept⟩
      · rw [World.record, history]
        simp [World.record]
      · rw [World.due_of_listener found listens, List.filter_append,
          List.filter_cons, List.filter_reverse, hushed]
        simp [Event.rounds]

theorem Notifies.calls (sound : engine.Sound)
    (notifies : Notifies engine id before turns after) :
    before.Busy id → ∃ events : List (Event α),
      after.history = events.reverse ++ before.history ∧
      events.filter (Event.rounds id) =
        turns.flatMap (fun turn => turn.2.due id turn.1) ∧ ∀ former,
          before.solvers[id]? = some former → ∀ turn ∈ turns, ∃ later,
            turn.2.solvers[id]? = some later ∧ former.KeepsValues later := by
  induction notifies with
  | done world => exact fun _ => ⟨[], rfl, rfl, by simp⟩
  | turn first _ induction =>
      intro busy
      rcases notify_due sound busy first with
        ⟨events, former, between, history, calls, isFormer, isBetween, kept,
          dispatching⟩
      rcases induction ⟨between, isBetween, dispatching⟩ with
        ⟨rest, isAfter, laterCalls, keptToo⟩
      refine ⟨events ++ rest, ?_, ?_, ?_⟩
      · rw [isAfter, history, List.reverse_append, List.append_assoc]
      · rw [List.filter_append, calls, laterCalls, List.flatMap_cons]
      · intro present isPresent turn member
        rw [isFormer] at isPresent
        cases isPresent
        rcases List.mem_cons.mp member with rfl | later
        · exact ⟨former, isFormer, .refl former⟩
        · rcases keptToo between isBetween turn later with
            ⟨last, isLast, keptLast⟩
          exact ⟨last, isLast, kept.trans keptLast⟩

/-- A round in which no hook fails makes all the calls that are due, and no
others. -/
theorem rings_of_round (sound : engine.Sound) {written : Solver α}
    {moved : List VariableId} (found : before.solvers[id]? = some written)
    (coherent : written.Coherent) (lists : written.Lists moved)
    (yields : (Action.round engine id moved).Yields before (.ok ()) after) :
    (moved = [] ∧ after = before) ∨
      ∃ events turns,
        Rings engine id written moved before events turns after := by
  rcases Action.round_cases yields with
    ⟨nothing, _, same⟩ | ⟨_, last, calls, held | ⟨_, failed, _⟩⟩
  · exact .inl ⟨nothing, same⟩
  · rcases held with ⟨_, rfl⟩
    have opened := World.getElem?_change_self
      (fun solver : Solver α => { solver with dispatching := true }) (show
        (before.record (.roundBegan id moved)).solvers[id]? = some written
        from found)
    rcases exists_notifies calls with ⟨turns, notifies, order⟩
    rcases notifies.calls sound ⟨_, opened, rfl⟩ with
      ⟨events, history, called, kept⟩
    refine .inr ⟨events, turns, ?_, ⟨last, notifies⟩, order, lists.1,
      called, ?_⟩
    · exact congrArg (List.cons _) history
    · intro turn member
      rcases kept _ opened turn member with ⟨later, isLater, keeps⟩
      have keeps : written.KeepsValues later :=
        ⟨keeps.nextVariable, keeps.values⟩
      refine ⟨later, isLater, keeps, fun hook value listens => ?_⟩
      have isMoved : turn.1 ∈ moved := order ▸ List.mem_map_of_mem member
      exact keeps.value?_eq (coherent.unknownsBelow _ (lists.2 _ isMoved))
        (World.value?_of_listener listens)
  · cases failed

/-! ## Edits and their rounds -/

/-- An operation begins with its own edit and the round that follows, and goes
on, unless that fails, with what hooks have asked for. -/
theorem Carries.serves {task : Task α} {result : Ending α}
    (carries : Carries engine id task before result after) :
    ∃ outcome middle,
      (Action.serve engine id task.edit).Yields before outcome middle ∧
      (result = outcome ∧ middle.Like after ∨ outcome = .ok () ∧
        ∃ final, (Action.settle engine id).Yields middle result final ∧
          final.Like after) := by
  rcases carries.cases with
    ⟨lost, rfl, rfl⟩ | ⟨solver, draft, found, failed | done⟩
  · exact ⟨_, _,
      Action.yields_bind.mpr
      (.inl ⟨_, Action.yields_edit.mpr (.inl ⟨lost, rfl, rfl⟩), rfl⟩),
      .inl ⟨rfl, .refl _⟩⟩
  · rcases failed with ⟨failure, yields, rfl, rfl⟩
    exact ⟨_, _,
      Action.yields_bind.mpr
      (.inl ⟨_, Action.edit_of_yields found yields, rfl⟩), .inl ⟨rfl, .refl _⟩⟩
  · rcases done with ⟨moved, final, yields, announced, like⟩
    have edited := Action.edit_of_yields found yields
    unfold Action.announce at announced
    cases moved with
    | nil =>
        rcases Action.yields_pure.mp announced with ⟨rfl, rfl⟩
        exact ⟨_, _,
          (Action.yields_bind_of_ok edited).mpr
          (Action.yields_pure.mpr ⟨rfl, rfl⟩), .inl ⟨rfl, like⟩⟩
    | cons target rest =>
        simp only [List.isEmpty_cons, Bool.false_eq_true, if_false] at announced
        rcases Action.yields_bind.mp announced with ⟨failure, failed, rfl⟩
          | ⟨_, middle, held, later⟩
        · exact ⟨_, _, (Action.yields_bind_of_ok edited).mpr failed,
            .inl ⟨rfl, like⟩⟩
        · exact ⟨_, _, (Action.yields_bind_of_ok edited).mpr held,
            .inr ⟨rfl, final, later, like⟩⟩

/-- An edit outside of rounds, and the round that follows it without a
failure. -/
theorem rings_of_serve (sound : engine.Sound) {solver : Solver α}
    {work : Edit α (List VariableId)} (coherent : before.Coherent)
    (found : before.solvers[id]? = some solver)
    (isWork : (∃ task : Task α, work = task.edit) ∨
      solver.nextDeferred = some work)
    (yields : (Action.serve engine id work).Yields before (.ok ()) after) :
    ∃ moved draft, work.Yields ⟨solver, []⟩ (.ok moved) draft ∧
      ((moved = [] ∧ after = before.adopt id draft) ∨ ∃ events turns,
        Rings engine id draft.solver moved (before.adopt id draft) events turns
          after) := by
  rcases Action.serve_cases found yields with ⟨_, _, _, impossible, _⟩ |
    ⟨moved, draft, edited, round⟩
  · cases impossible
  · refine ⟨moved, draft, edited, ?_⟩
    have holds := coherent id solver found
    have kept : draft.solver.Coherent ∧ draft.solver.Lists moved := by
      rcases isWork with ⟨task, rfl⟩ | next
      · exact ⟨Task.edit_coheres _ _ _ _ edited holds,
          Task.lists_moved holds edited⟩
      · exact ⟨Solver.coherent_of_nextDeferred holds next edited,
          Solver.lists_of_nextDeferred holds next edited⟩
    exact rings_of_round sound (World.getElem?_adopt_self draft found) kept.1
      kept.2 round

/-- Notification is exact. An operation, and each item of deferred work, is an
edit with the round that follows it; the edit may solve, or it gives a variable
a value. Outside of dispatch, if no hook of the round fails: after an edit that
solves, the hooks called are those of the variables that the solve has moved by
more than the tolerance, in order, as far as they listen when their turn comes,
each of them once and with the value that has been written. After an edit that
gives a variable a value, the variable itself comes last, whatever the solve has
made of it; if the value is no news, nothing happens. -/
theorem serve_rings (patience depth : Nat) (id : SolverId) :
    (∀ (before after : World α) (task : Task α) (result : Ending α),
      Carries (.ofDepth patience depth) id task before result after →
      ∃ outcome middle,
        (Action.serve (.ofDepth patience depth) id task.edit).Yields before
          outcome middle ∧
        (result = outcome ∧ middle.Like after ∨
          outcome = .ok () ∧ ∃ final,
            (Action.settle (.ofDepth patience depth) id).Yields middle result
              final ∧
            final.Like after)) ∧
    (∀ (solver : Solver α) (work : Edit α (List VariableId)),
      ((∃ task : Task α, work = task.edit) ∨ solver.nextDeferred = some work) →
      solver.Solves work ∨ (∃ handle, work = Edit.setValue handle none) ∨
        ∃ target value first, solver.Sets target value work first) ∧
    ∀ (before : World α) (solver : Solver α), before.Coherent →
      before.solvers[id]? = some solver → solver.dispatching = false →
      (∀ work, solver.Solves work → ∀ after,
        (Action.serve (.ofDepth patience depth) id work).Yields before (.ok ())
          after →
        ∃ moved draft, work.Yields ⟨solver, []⟩ (.ok moved) draft ∧
          solver.Tells draft.notes draft.solver moved ∧
          ((moved = [] ∧ after = before.adopt id draft) ∨ ∃ events turns,
            Rings (.ofDepth patience depth) id draft.solver moved
              (before.adopt id draft) events turns after)) ∧
      ∀ target value work first, solver.Sets target value work first →
        (solver.Ignores target value → ∀ result after,
          (Action.serve (.ofDepth patience depth) id work).Yields before result
            after →
          after = before.adopt id first) ∧
        (¬solver.Ignores target value → ∀ after,
          (Action.serve (.ofDepth patience depth) id work).Yields before
            (.ok ()) after →
          ∃ others draft,
            work.Yields ⟨solver, []⟩
              (.ok (others.filter (fun other => other ≠ target) ++ [target]))
              draft ∧
            solver.Tells draft.notes draft.solver others ∧ ∃ events turns,
              Rings (.ofDepth patience depth) id draft.solver
                (others.filter (fun other => other ≠ target) ++ [target])
                (before.adopt id draft) events turns after) := by
  have sound : (Engine.ofDepth patience depth : Engine α).Sound :=
    Engine.ofDepth_sound patience depth
  refine ⟨fun _ _ _ _ carries => carries.serves, fun _ _ =>
    Solver.solves_or_sets, ?_⟩
  intro before solver coherent found idle
  have nodup := (coherent id solver found).unknownsNodup
  constructor
  · intro work solves after served
    rcases rings_of_serve sound coherent found solves.isWork served with
      ⟨moved, draft, yields, rings⟩
    exact ⟨moved, draft, yields, solves.tells nodup idle yields, rings⟩
  · intro target value work first sets
    constructor
    · intro ignores result after served
      rcases Action.serve_cases found served with
        ⟨failure, draft, yields, _, rfl⟩ | ⟨moved, draft, yields, round⟩
      · rw [(sets.ignored idle ignores yields).1]
      · rcases sets.ignored idle ignores yields with ⟨rfl, unmoved⟩
        rw [unmoved moved rfl] at round
        exact (Action.yields_pure.mp round).2
    · intro heeds after served
      rcases rings_of_serve sound coherent found sets.isWork served with
        ⟨moved, draft, yields, rings⟩
      rcases sets.tells nodup idle heeds yields with ⟨others, tells, rfl⟩
      refine ⟨others, draft, yields, tells,
        rings.resolve_left fun nothing => ?_⟩
      exact List.append_ne_nil_of_right_ne_nil _ (List.cons_ne_nil _ _)
        nothing.1

/-- A world in which `y`, `z` and `w` keep their distance from `x`, and all have
hooks. The hook of `y` cancels the one of `z` and deletes `w`. -/
def thinningWorld : World ℚ :=
  ((play (.ofDepth 9 3) .empty
    ([.operation (.newSolver "s" true true (.literal (some 0)) 10),
      .operation (.addVariable "s" "x" none (.literal (some 1))),
      .operation (.addVariable "s" "y" none (.literal (some 2))),
      .operation (.addVariable "s" "z" none (.literal (some 3))),
      .operation (.addVariable "s" "w" none (.literal (some 4))),
      .observeInline "x" (.ofList []) none,
      .observeInline "y" (.ofList [(.operation (.cancel "sz"), false),
        (.operation (.deleteVariable "w"), false)]) none,
      .observeInline "z" (.ofList []) (some "sz"),
      .observeInline "w" (.ofList []) none] ++
    [("y", 1), ("z", 2), ("w", 3)].map fun (name, distance) =>
      .operation (.addConstraint "s" (some name)
        [(.label name, .literal (some 1)), (.label "x", .literal (some (-1)))]
        (.literal (some distance))))).getLast?.map Step.world).getD .empty

theorem serve_rings_thinningWorld :
    ∃ solver, thinningWorld.solvers[0]? = some solver ∧
      (∃ after,
        Carries (.ofDepth 9 3) 0 (.setValue ⟨0, 0⟩ (some 5)) thinningWorld
          (.ok ()) after ∧ ∃ outcome middle,
            (Action.serve (.ofDepth 9 3) 0
              (Task.setValue ⟨0, 0⟩ (some 5)).edit).Yields thinningWorld outcome
              middle) ∧
      (solver.Solves (Task.setSum ⟨0, 1⟩ (some 7)).edit ∧
        ∃ after moved draft events turns,
          Rings (.ofDepth 9 3) 0 draft.solver moved
            (thinningWorld.adopt 0 draft) events turns after ∧
            after.history.filterMap (Event.calledBy 0) = [2]) ∧
      (solver.Ignores 0 1 ∧ ∃ result after, (Action.serve (.ofDepth 9 3) 0
          (Edit.setValue ⟨0, 0⟩ (some 1))).Yields thinningWorld result after ∧
        after = thinningWorld.adopt 0 ⟨solver, []⟩) ∧
      (¬solver.Ignores 0 5 ∧
        ∃ after, ∃ others : List VariableId, ∃ draft events turns,
          Rings (.ofDepth 9 3) 0 draft.solver
            (others.filter (fun other => other ≠ 0) ++ [0])
              (thinningWorld.adopt 0 draft) events turns after ∧
          after.history.filterMap (Event.calledBy 0) = [0, 1]) := by
  rcases @serve_rings ℚ _ 9 3 0 with ⟨serves, _, exactly⟩
  have isThere : thinningWorld.solvers[0]?.isSome = true := by decide +kernel
  have suited : ∀ solver ∈ thinningWorld.solvers[0]?,
      solver.dispatching = false ∧ solver.settings.tolerance = some 0 ∧
        (solver.unknowns.get? 0).map Variable.value = some 1 := by
    decide +kernel
  rcases Option.isSome_iff_exists.mp isThere with ⟨solver, found⟩
  rcases suited solver found with ⟨idle, isZero, isOne⟩
  rcases Option.map_eq_some_iff.mp isOne with ⟨contents, isContents, hasOne⟩
  have coherent :=
    (Reached.of_last (.ofDepth 9 3) _ :
      Reached (.ofDepth 9 3) thinningWorld).coherent (Engine.ofDepth_sound 9 3)
  rcases exactly thinningWorld solver coherent found idle with
    ⟨solving, setting⟩
  have ignores : solver.Ignores 0 1 := by
    intro former tolerance isFormer given
    rw [isContents] at isFormer
    rw [isZero] at given
    cases isFormer
    cases given
    rw [hasOne]
    decide +kernel
  have heeds : ¬solver.Ignores 0 5 := by
    intro ignored
    have small := ignored contents 0 isContents isZero
    rw [hasOne] at small
    exact absurd small (by decide +kernel)
  have sets : solver.Sets 0 5 (Edit.setValue ⟨0, 0⟩ (some 5)) ⟨solver, []⟩ :=
    .asked rfl
  have solves : solver.Solves (Task.setSum ⟨0, 1⟩ (some 7)).edit :=
    .asked (by simp)
  have ran : ∀ (work : Edit ℚ (List VariableId)) (calls : List VariableId),
      (match (Action.serve (.ofDepth 9 3) 0 work).run.run thinningWorld with
        | some (.ok _, after) =>
            decide (after.history.filterMap (Event.calledBy 0) = calls)
        | some (.error _, _) | none => false) = true →
      ∃ after,
        (Action.serve (.ofDepth 9 3) 0 work).Yields thinningWorld (.ok ())
          after ∧
        after.history.filterMap (Event.calledBy 0) = calls := by
    intro work calls ran
    split at ran
    · next after yields => exact ⟨after, yields, of_decide_eq_true ran⟩
    · cases ran
    · cases ran
  refine ⟨solver, found, ?_, ⟨solves, ?_⟩, ⟨ignores, ?_⟩, heeds, ?_⟩
  · have ended : (match (Action.perform (.ofDepth 9 3) 0
        (Task.setValue ⟨0, 0⟩ (some 5)).edit).run.run thinningWorld with
        | some (.ok _, _) => true
        | some (.error _, _) | none => false) = true := by
      decide +kernel
    split at ended
    · next after yields =>
        have carries :
            Carries (.ofDepth 9 3) 0 (.setValue ⟨0, 0⟩ (some 5)) thinningWorld
              (.ok ()) after := .performed yields
        rcases serves _ _ _ _ carries with ⟨outcome, middle, served, _⟩
        exact ⟨after, carries, outcome, middle, served⟩
    · cases ended
    · cases ended
  · rcases ran (Task.setSum ⟨0, 1⟩ (some 7)).edit [2] (by decide +kernel) with
      ⟨after, served, called⟩
    rcases solving _ solves after served with
      ⟨moved, draft, _, _, ⟨_, rfl⟩ | ⟨events, turns, rings⟩⟩
    · have uncalled : thinningWorld.history.filterMap (Event.calledBy 0) =
        [] := by decide +kernel
      have notes :
          draft.notes.filterMap (Event.calledBy 0 ∘ Event.noted 0) = [] :=
        List.filterMap_eq_nil_iff.mpr fun _ _ => rfl
      rw [World.adopt, List.filterMap_append, List.filterMap_map, notes,
        uncalled] at called
      cases called
    · exact ⟨after, moved, draft, events, turns, rings, called⟩
  · rcases ran (Edit.setValue ⟨0, 0⟩ (some 1)) [] (by decide +kernel) with
      ⟨after, served, _⟩
    exact ⟨_, after, served,
      (setting 0 1 _ _ (.asked rfl)).1 ignores _ _ served⟩
  · rcases ran (Edit.setValue ⟨0, 0⟩ (some 5)) [0, 1] (by decide +kernel) with
      ⟨after, served, called⟩
    rcases (setting 0 5 _ _ sets).2 heeds after served with
      ⟨others, draft, _, _, events, turns, rings⟩
    exact ⟨after, others, draft, events, turns, rings, called⟩

end Session

end LiveLinear
