import LiveLinear.Proofs.Session.Freezing
import LiveLinear.Proofs.Session.Termination

namespace LiveLinear

/-! # Cascades

How an operation processes deferred work: item by item, at most as many items as
the cascade limit of the solver, and an error if more work is waiting then. -/

variable {α : Type}

namespace World

variable {world before middle after : World α} {id : SolverId}
  {solver : Solver α} {first second count : Nat}

def Takes (before after : World α) (id : SolverId) (count : Nat) : Prop :=
  before.Undergoes after id fun _ notes _ => notes.countP Note.isTaken = count

theorem Takes.trans (left : before.Takes middle id first)
    (right : middle.Takes after id second) :
    before.Takes after id (first + second) := by
  refine Undergoes.trans left right
    fun _ earlier _ later _ isFirst isSecond => ?_
  rw [List.countP_append, isFirst, isSecond]

theorem Takes.adopt {draft : Draft α} (found : world.solvers[id]? = some solver)
    (takes : draft.notes.countP Note.isTaken = count) :
    world.Takes (world.adopt id draft) id count :=
  Undergoes.adopt found (List.countP_reverse.trans takes)

theorem Takes.change (change : Solver α → Solver α)
    (found : world.solvers[id]? = some solver) :
    world.Takes (world.change id change) id 0 :=
  Undergoes.change found List.countP_nil

end World

namespace Session

/-- An operation that begins here is an outermost one of the solver: no hooks of
the solver are being called, though hooks of other solvers may be. All hooks are
tame. -/
structure Opens (id : SolverId) (limit : Int) (before : World α) : Prop where
  settled : before.Settled
  idle : before.At id fun solver =>
    solver.dispatching = false ∧ solver.settings.cascadeLimit = limit
  tame : ∀ hook ∈ before.hooks, hook.body.isTame = true

def Limits (id : SolverId) (limit : Int) (other : SolverId) (value : Int) :
    Prop :=
  other = id → value = limit

theorem Opens.stands {id : SolverId} {limit : Int} {before : World α}
    (opens : Opens id limit before) : before.Stands id (Limits id limit) := by
  refine ⟨opens.settled.but id, opens.idle.imp fun _ one =>
    one.1, opens.tame, ?_⟩
  intro other solver found same
  rcases opens.idle with ⟨present, isPresent, _, isLimit⟩
  rw [← same, found] at isPresent
  cases isPresent
  exact isLimit

end Session

variable [Scalar α] {engine : Engine α} {before after : World α} {id : SolverId}
  {limit : Int} {result : Ending α}

/-! ## Rounds and items -/

namespace Action

open World (Takes)

theorem round_takes (sound : engine.Sound) {targets : List VariableId}
    (idle : before.At id fun solver => solver.dispatching = false)
    (yields : (round engine id targets).Yields before result after) :
    before.Takes after id 0 := by
  rcases idle with ⟨solver, found, _⟩
  have untaken : ∀ (notes : List (Note α)) (later : Solver α),
      { solver with dispatching := true }.Attends notes later →
      notes.countP Note.isTaken = 0 :=
    fun notes later attends => attends.defers.countP_isTaken
  rcases round_cases yields with ⟨_, _, rfl⟩ | ⟨_, middle, calls, closing⟩
  · exact .of_unnoted [] rfl (by simp) found found List.countP_nil
  · have calls := runs_notifyAll sound targets calls
    rcases closing with ⟨_, rfl⟩ | ⟨_, _, rfl⟩
    · exact World.undergoes_round found calls untaken
    · exact World.undergoes_round found calls untaken

/-- A solver that is at rest processes all deferred work. -/
theorem settle_drains
    (phase : before.At id fun solver => solver.dispatching = false ∧
      solver.draining = false)
    (yields : (settle engine id).Yields before result after) :
    ∃ last, (drain engine id 0 engine.patience).Yields
        (before.change id fun solver => { solver with draining := true })
          result last ∧
      after.history = last.history := by
  rcases phase with ⟨solver, found, _, notDraining⟩
  rcases settle_cases yields with ⟨lost, _, _⟩ |
    ⟨same, isSame, ⟨draining, _, _⟩ | ⟨_, last, drains, closing⟩⟩
  · rw [lost] at found
    cases found
  · rw [found] at isSame
    cases isSame
    cases draining.symm.trans notDraining
  · rcases closing with ⟨_, rfl⟩ | ⟨_, _, rfl⟩
    · exact ⟨last, drains, rfl⟩
    · exact ⟨last, drains, rfl⟩

theorem serve_takes (sound : engine.Sound) {allowed : SolverId → Int → Prop}
    {solver : Solver α} {work : Edit α (List VariableId)}
    (stands : before.Stands id allowed)
    (found : before.solvers[id]? = some solver)
    (next : solver.nextDeferred = some work)
    (yields : (serve engine id work).Yields before result after) :
    before.Takes after id 1 := by
  have idle := stands.dispatching found
  rcases serve_cases found yields with ⟨_, draft, edited, _, rfl⟩
    | ⟨moved, draft, edited, held⟩
  · exact .adopt found (Solver.countP_isTaken_of_nextDeferred idle next edited)
  · have takes := Solver.takes_of_nextDeferred next edited
    have between := stands.adopt found takes.dispatching takes.settings
    have takesOne : before.Takes (before.adopt id draft) id 1 :=
      .adopt found (Solver.countP_isTaken_of_nextDeferred idle next edited)
    exact takesOne.trans (round_takes sound between.idle held)

end Action

/-! ## The course of an operation -/

namespace Session

section Course

variable (engine : Engine α) (id : SolverId) (task : Task α) (before : World α)

/-- An operation has told hooks of what its own edit has moved, and has then
processed so many items of deferred work, all without an error. -/
inductive Processed : Nat → World α → Prop
  | told (found : before.solvers[id]? = some solver)
      (yields : task.edit.Yields ⟨solver, []⟩ (.ok moved) draft)
      (some : moved ≠ [])
      (held : (Action.round engine id moved).Yields (before.adopt id draft)
        (.ok ()) middle) :
      Processed 0 (middle.change id fun solver =>
        { solver with draining := true })
  | item (processed : Processed count world)
      (found : world.solvers[id]? = some solver)
      (next : solver.nextDeferred = some work)
      (serves : (Action.serve engine id work).Yields world (.ok ()) later) :
      Processed (count + 1) later

/-- The world after so many items, if they can be processed without an error. -/
def process : Nat → Option (World α)
  | 0 => ((Action.edit id task.edit).done? before).bind fun (moved, start) =>
      if moved = [] then none
      else ((Action.round engine id moved).done? start).map fun (_, middle) =>
        middle.change id fun solver => { solver with draining := true }
  | count + 1 => (process count).bind fun world =>
      (world.solvers[id]?.bind Solver.nextDeferred).bind fun work =>
        ((Action.serve engine id work).done? world).map Prod.snd

/-- Something goes wrong in an operation: its own edit, or a hook that is told
of what that has moved, or one of the first items of deferred work, as many as
are allowed. -/
inductive Fault (allowed : Nat) (cause : Failure α) : World α → Prop
  | edit (found : before.solvers[id]? = some solver)
      (yields : task.edit.Yields ⟨solver, []⟩ (.error cause) draft) :
      Fault allowed cause (before.adopt id draft)
  | told (found : before.solvers[id]? = some solver)
      (yields : task.edit.Yields ⟨solver, []⟩ (.ok moved) draft)
      (some : moved ≠ [])
      (fails : (Action.round engine id moved).Yields (before.adopt id draft)
        (.error cause) last) :
      Fault allowed cause last
  | item (processed : Processed engine id task before count world)
      (within : count < allowed) (found : world.solvers[id]? = some solver)
      (next : solver.nextDeferred = some work)
      (fails : (Action.serve engine id work).Yields world (.error cause) last) :
      Fault allowed cause last

/-- The ways in which an operation can end. -/
inductive Course (limit : Int) : Ending α → World α → Prop
  | faulty (fault : Fault engine id task before limit.toNat cause last) :
      Course limit (.error cause) last
  | unmoved (found : before.solvers[id]? = some solver)
      (yields : task.edit.Yields ⟨solver, []⟩ (.ok []) draft) :
      Course limit (.ok ()) (before.adopt id draft)
  | finished (processed : Processed engine id task before count last)
      (within : count ≤ limit.toNat) (found : last.solvers[id]? = some solver)
      (nothing : solver.nextDeferred = none) :
      Course limit (.ok ()) last
  | exceeded (processed : Processed engine id task before limit.toNat last)
      (found : last.solvers[id]? = some solver)
      (more : solver.nextDeferred.isSome = true) :
      Course limit (.error (.cascade limit)) last

end Course

variable {task : Task α} {world last : World α} {count : Nat}

theorem processed_iff :
    Processed engine id task before count world ↔
      process engine id task before count = some world := by
  constructor
  · intro processed
    induction processed with
    | told found yields some held =>
        simp [process,
          Action.done?_of_yields (Action.edit_of_yields found yields), some,
          Action.done?_of_yields held]
    | item _ found next serves induction =>
        simp [process, induction, found, next, Action.done?_of_yields serves]
  · intro computed
    induction count generalizing world with
    | zero =>
        simp only [process, Option.bind_eq_some_iff] at computed
        rcases computed with ⟨⟨moved, start⟩, edited, rest⟩
        split at rest
        · cases rest
        · next some =>
            rcases Option.map_eq_some_iff.mp rest with ⟨⟨_, middle⟩, held, rfl⟩
            rcases Action.yields_edit.mp (Action.yields_of_done? edited) with
              ⟨_, impossible, _⟩ | ⟨solver, draft, found, yields, rfl⟩
            · cases impossible
            · exact .told found yields some (Action.yields_of_done? held)
    | succ count induction =>
        simp only [process, Option.bind_eq_some_iff] at computed
        rcases computed with
          ⟨former, earlier, work, ⟨solver, found, next⟩, rest⟩
        rcases Option.map_eq_some_iff.mp rest with ⟨⟨_, later⟩, served, rfl⟩
        exact .item (induction earlier) found
          next (Action.yields_of_done? served)

theorem Opens.adopt {solver : Solver α} {draft : Draft α}
    {result : Except (Failure α) (List VariableId)}
    (opens : Opens id limit before) (found : before.solvers[id]? = some solver)
    (yields : task.edit.Yields ⟨solver, []⟩ result draft) :
    (before.adopt id draft).Stands id (Limits id limit) ∧
      before.Takes (before.adopt id draft) id 0 := by
  have steady := Task.edit_steady _ _ _ _ yields
  have minds := Task.edit_minds _ _ _ _ yields
  exact ⟨opens.stands.adopt found steady.dispatching steady.settings,
    .adopt found (minds.countP_isTaken (opens.stands.dispatching found))⟩

namespace Processed

theorem stands (sound : engine.Sound) (opens : Opens id limit before)
    (processed : Processed engine id task before count world) :
    world.Stands id (Limits id limit) ∧ before.Takes world id count := by
  induction processed with
  | told found yields some held =>
      rcases opens.adopt found yields with ⟨between, takes⟩
      have stands := (Action.round_stands sound between held).1
      rcases stands.idle with ⟨later, isLater, _⟩
      have takesNone :=
        (takes.trans (Action.round_takes sound between.idle held)).trans
          (.change (fun solver => { solver with draining := true }) isLater)
      exact ⟨stands.startDraining, takesNone⟩
  | item processed found next serves induction =>
      rcases induction with ⟨between, takes⟩
      have stands := (Action.serve_stands sound between found next serves).1
      exact ⟨stands,
        takes.trans (Action.serve_takes sound between found next serves)⟩

theorem begun (processed : Processed engine id task before count world) :
    ∃ solver draft moved middle, before.solvers[id]? = some solver ∧
      task.edit.Yields ⟨solver, []⟩ (.ok moved) draft ∧ moved ≠ [] ∧
      (Action.round engine id moved).Yields (before.adopt id draft) (.ok ())
        middle := by
  induction processed with
  | told found yields some held => exact ⟨_, _, _, _, found, yields, some, held⟩
  | item _ _ _ _ induction => exact induction

theorem unique {other : World α}
    (processed : Processed engine id task before count world)
    (again : Processed engine id task before count other) : other = world :=
  Option.some.inj
    ((processed_iff.mp again).symm.trans (processed_iff.mp processed))

theorem earlier {former : Nat}
    (processed : Processed engine id task before count world)
    (less : former < count) :
    ∃ start solver work later, Processed engine id task before former start ∧
      start.solvers[id]? = some solver ∧ solver.nextDeferred = some work ∧
      (Action.serve engine id work).Yields start (.ok ()) later := by
  induction processed with
  | told => cases less
  | @item _ start _ _ later processed found next serves induction =>
      rcases Nat.lt_succ_iff_lt_or_eq.mp less with before | rfl
      · exact induction before
      · exact ⟨start, _, _, later, processed, found, next, serves⟩

/-- Where items have been processed without an error, nothing has gone wrong. -/
theorem not_fault {allowed : Nat} {cause : Failure α}
    (processed : Processed engine id task before allowed world) :
    ¬Fault engine id task before allowed cause last := by
  rcases processed.begun with
    ⟨solver, draft, moved, middle, found, yields, _, held⟩
  intro fault
  cases fault with
  | edit isSame fails =>
      rw [found] at isSame
      cases isSame
      rw [Edit.Yields, yields] at fails
      cases fails
  | told isSame yieldsToo _ fails =>
      rw [found] at isSame
      cases isSame
      rw [Edit.Yields, yields] at yieldsToo
      cases yieldsToo
      cases (held.unique fails).1
  | item former within isSame nextToo fails =>
      rcases processed.earlier within with
        ⟨start, _, _, _, isFormer, isThere, next, serves⟩
      cases isFormer.unique former
      rw [isThere] at isSame
      cases isSame
      rw [next] at nextToo
      cases nextToo
      cases (serves.unique fails).1

end Processed

/-- The processing of deferred work goes on from where it stands to one of its
ends. -/
theorem course_of_drain (sound : engine.Sound) (patience : Nat) :
    ∀ {count : Nat} {world : World α},
      Processed engine id task before count world →
      world.Stands id (Limits id limit) → count ≤ limit.toNat →
      (Action.drain engine id count patience).Yields world result last →
      Course engine id task before limit result last := by
  induction patience with
  | zero =>
      intro _ _ _ _ _ yields
      exact absurd yields Action.yields_exhausted
  | succ patience induction =>
      intro count world processed stands within yields
      rw [Action.drain_succ] at yields
      rcases Action.yields_solver_bind.mp yields with
        ⟨lost, _, _⟩ | ⟨solver, found, rest⟩
      · rcases stands.idle with ⟨_, found, _⟩
        rw [lost] at found
        cases found
      · have isLimit := stands.obeys.limits id solver found rfl
        cases next : solver.nextDeferred with
        | none =>
            rw [next] at rest
            rcases Action.yields_pure.mp rest with ⟨rfl, rfl⟩
            exact .finished processed within found next
        | some work =>
            simp only [next, isLimit] at rest
            split at rest
            · next exceeds =>
                rcases Action.yields_throw.mp rest with ⟨rfl, rfl⟩
                have exhausted : count = limit.toNat := by omega
                subst count
                exact .exceeded processed found (by simp [next])
            · next allows =>
                have less : count < limit.toNat := by omega
                rcases Action.yields_bind.mp rest with ⟨failure, failed, rfl⟩ |
                  ⟨_, middle, served, later⟩
                · exact .faulty (.item processed less found next failed)
                · have stillStands :=
                    (Action.serve_stands sound stands found next served).1
                  exact induction (.item processed found next served)
                    stillStands less later

theorem Carries.course (sound : engine.Sound) (opens : Opens id limit before)
    (carries : Carries engine id task before result after) :
    ∃ last, Course engine id task before limit result last ∧
      after.history = last.history := by
  rcases carries.cases with ⟨lost, _, _⟩ | ⟨solver, draft, found, failed | done⟩
  · rcases opens.idle with ⟨_, found, _⟩
    rw [lost] at found
    cases found
  · rcases failed with ⟨failure, yields, rfl, rfl⟩
    exact ⟨_, .faulty (.edit found yields), rfl⟩
  · rcases done with ⟨moved, final, yields, announced, like⟩
    rw [like.history]
    have stands := (opens.adopt found yields).1
    cases moved with
    | nil =>
        rcases Action.yields_pure.mp announced with ⟨rfl, rfl⟩
        exact ⟨_, .unmoved found yields, rfl⟩
    | cons target rest =>
        have some : target :: rest ≠ [] := List.cons_ne_nil _ _
        simp only [Action.announce, List.isEmpty_cons, Bool.false_eq_true,
          if_false] at announced
        rcases Action.yields_bind.mp announced with ⟨failure, fails, rfl⟩
          | ⟨_, middle, held, later⟩
        · exact ⟨_, .faulty (.told found yields some fails), rfl⟩
        · have processed := Processed.told found yields some held
          have steady := Task.edit_steady _ _ _ _ yields
          have rested : (before.adopt id draft).At id fun solver =>
              solver.dispatching = false ∧ solver.draining = false := by
            have dispatching := opens.stands.dispatching found
            have draining := (opens.settled id solver found dispatching).1
            exact .adopt found
              ⟨steady.dispatching.trans dispatching,
                steady.draining.trans draining⟩
          have runs := Action.runs_round sound held
          have phase := (runs.settles ⟨stands.but, stands.idle⟩).2.phase rested
          rcases Action.settle_drains phase later with ⟨last, drains, history⟩
          exact ⟨last,
            course_of_drain sound _ processed (processed.stands sound opens).1
            (Nat.zero_le _) drains, history⟩

namespace Course

/-- However an operation ends, it takes up no more items than are allowed. -/
theorem takes (sound : engine.Sound) (opens : Opens id limit before)
    (course : Course engine id task before limit result last) :
    ∃ count ≤ limit.toNat, before.Takes last id count := by
  cases course with
  | faulty fault =>
      cases fault with
      | edit found yields =>
          exact ⟨0, Nat.zero_le _, (opens.adopt found yields).2⟩
      | told found yields _ fails =>
          rcases opens.adopt found yields with ⟨stands, takes⟩
          exact ⟨0, Nat.zero_le _,
            takes.trans (Action.round_takes sound stands.idle fails)⟩
      | item processed within found next fails =>
          rcases processed.stands sound opens with ⟨stands, takes⟩
          have takesOne := Action.serve_takes sound stands found next fails
          exact ⟨_, Nat.succ_le_of_lt within, takes.trans takesOne⟩
  | unmoved found yields =>
      exact ⟨0, Nat.zero_le _, (opens.adopt found yields).2⟩
  | finished processed within =>
      exact ⟨_, within, (processed.stands sound opens).2⟩
  | exceeded processed =>
      exact ⟨_, Nat.le_refl _, (processed.stands sound opens).2⟩

/-- Where work is left after as many items as are allowed, the operation ends at
that. -/
theorem eq_cascade {solver : Solver α}
    (course : Course engine id task before limit result last)
    (processed : Processed engine id task before limit.toNat world)
    (found : world.solvers[id]? = some solver)
    (more : solver.nextDeferred.isSome = true) :
    result = .error (.cascade limit) := by
  cases course with
  | faulty fault => exact absurd fault processed.not_fault
  | unmoved isSame nothing =>
      rcases processed.begun with ⟨_, _, _, _, isThere, yields, some, _⟩
      rw [isThere] at isSame
      cases isSame
      rw [Edit.Yields, yields] at nothing
      cases nothing
      exact absurd rfl some
  | finished done within isLast nothing =>
      rcases Nat.lt_or_eq_of_le within with less | rfl
      · rcases processed.earlier less with
          ⟨start, _, _, _, isFormer, isThere, next, _⟩
        cases isFormer.unique done
        rw [isThere] at isLast
        cases isLast
        rw [nothing] at next
        cases next
      · cases processed.unique done
        rw [found] at isLast
        cases isLast
        rw [nothing] at more
        cases more
  | exceeded => rfl

theorem exceeds_iff (course : Course engine id task before limit result last) :
    (∃ world solver, Processed engine id task before limit.toNat world ∧
        world.solvers[id]? = some solver ∧ solver.nextDeferred.isSome = true) ↔
      result = .error (.cascade limit) ∧
        ∀ cause world,
          ¬Fault engine id task before limit.toNat cause world := by
  constructor
  · rintro ⟨world, solver, processed, found, more⟩
    exact ⟨course.eq_cascade processed found more, fun _ _ =>
      processed.not_fault⟩
  · rintro ⟨ended, faultless⟩
    cases course with
    | faulty fault => exact absurd fault (faultless _ _)
    | unmoved => cases ended
    | finished => cases ended
    | exceeded processed found more => exact ⟨_, _, processed, found, more⟩

end Course

theorem Carries.nodup_called (sound : engine.Sound)
    (outer : Outer engine before)
    (carries : Carries engine id task before result after) {other : SolverId}
    {newer called older : List (Event α)} {targets : List VariableId}
    (history :
      after.history = newer ++ (called ++ .roundBegan other targets :: older))
    (within : .roundEnded other ∉ called) :
    (called.filterMap (Event.calledBy other)).Nodup := by
  have goes := (carries.runs sound).goes (outer.fit sound) trivial
  have admitted := (goes.fit.inStep other).1
  rw [history] at admitted
  exact admitted.append.nodup_called within

theorem opens_of_outer (sound : engine.Sound) (outer : Outer engine world)
    (tame : ∀ hook ∈ world.hooks, hook.body.isTame = true) {solver : Solver α}
    (found : world.solvers[id]? = some solver) :
    Opens id solver.settings.cascadeLimit world := by
  have quiet := outer.quiet sound
  exact ⟨quiet.settled,
    ⟨solver, found, (quiet id solver found).dispatching, rfl⟩, tame⟩

/-- Sessions whose hooks are tame come to an end, whatever else the hooks ask
for. An outermost operation of a solver takes up no more items of deferred work
than the cascade limit of the solver, and ends with a cascade error, though
nothing has gone wrong, exactly if work is left after that many items have been
processed without an error. In no round is a hook called twice. -/
theorem carries_bounded (patience depth : Nat) (id : SolverId) :
    (∀ commands : List (Command α), (∀ command ∈ commands, command.BringsTame) →
      ∃ least : Nat, ∀ rounds calls : Nat, least ≤ rounds →
        (commands.map Command.founds).sum ≤ calls →
        (play (.ofDepth rounds calls) .empty commands).length =
          commands.length) ∧
    (∀ (before : World α) (solver : Solver α),
      Outer (.ofDepth patience depth) before →
      (∀ hook ∈ before.hooks, hook.body.isTame = true) →
      before.solvers[id]? = some solver →
      Opens id solver.settings.cascadeLimit before) ∧
    (∀ (before after : World α) (task : Task α) (result : Ending α)
      (limit : Int), Opens id limit before →
      Carries (.ofDepth patience depth) id task before result after →
      (∃ events : List (Event α),
        after.history = events.reverse ++ before.history ∧
        (events.filterMap (Event.noteOf id)).countP Note.isTaken ≤
          limit.toNat) ∧
      ((∃ world solver,
          Processed (.ofDepth patience depth) id task before limit.toNat world ∧
          world.solvers[id]? = some solver ∧
          solver.nextDeferred.isSome = true) ↔
        result = .error (.cascade limit) ∧ ∀ cause world,
          ¬Fault (.ofDepth patience depth) id task before limit.toNat cause
            world)) ∧
    ∀ (before after : World α) (task : Task α) (result : Ending α)
      (other : SolverId) (newer called older : List (Event α))
      (targets : List VariableId), Outer (.ofDepth patience depth) before →
      Carries (.ofDepth patience depth) id task before result after →
      after.history = newer ++ (called ++ .roundBegan other targets :: older) →
      .roundEnded other ∉ called →
      (called.filterMap (Event.calledBy other)).Nodup := by
  have sound : (Engine.ofDepth patience depth : Engine α).Sound :=
    Engine.ofDepth_sound patience depth
  refine ⟨?_, ?_, ?_, ?_⟩
  · intro commands tame
    rcases Command.exists_common_bound commands tame with ⟨least, allows⟩
    refine ⟨least + 1, fun rounds calls enough fits => ?_⟩
    apply play_length (by omega) commands World.quiet_empty.settled
      (World.obeys_empty _)
    · exact allows rounds (by omega)
    · rw [World.idle_empty, Finset.card_empty, Nat.zero_add]
      exact fits
  · exact fun _ _ outer tame found => opens_of_outer sound outer tame found
  · intro before after task result limit opens carries
    rcases carries.course sound opens with ⟨last, course, history⟩
    refine ⟨?_, course.exceeds_iff⟩
    rcases course.takes sound opens with
      ⟨count, within, events, isHistory, _, _, _, _, takes⟩
    refine ⟨events.reverse, ?_, ?_⟩
    · rw [List.reverse_reverse, history, isHistory]
    · rw [takes]
      exact within
  · exact fun _ _ _ _ _ _ _ _ _ outer carries history within =>
      carries.nodup_called sound outer history within

/-- Two solvers whose hooks set a variable of the other one, over and over. -/
def echoingCommands : List (Command ℚ) :=
  [.operation (.newSolver "s" true true (.literal (some 0)) 3),
    .operation (.newSolver "t" true true (.literal (some 0)) 10),
    .operation (.addVariable "s" "x" none (.literal (some 1))),
    .operation (.addVariable "t" "y" none (.literal (some 1))),
    .observeInline "x"
      (.ofList
        [(.operation (.setValue "y" (.derived none 1 1) .chained), false)])
      none,
    .observeInline "y"
      (.ofList
        [(.operation (.setValue "x" (.derived none 1 1) .chained), false)])
      none]

def echoingWorld : World ℚ :=
  ((play (.ofDepth 9 3) .empty echoingCommands).getLast?.map
    Step.world).getD .empty

theorem carries_bounded_echoingWorld :
    (∃ least : Nat, ∀ rounds calls : Nat, least ≤ rounds → 2 ≤ calls →
      (play (.ofDepth rounds calls) .empty (echoingCommands ++
        [.operation (.setValue "x" (.literal (some 5)) .chained)])).length =
          7) ∧
    ∃ after, Opens 0 3 echoingWorld ∧
      Carries (.ofDepth 9 3) 0 (.setValue ⟨0, 0⟩ (some 5)) echoingWorld
        (.error (.cascade 3)) after ∧
      (∃ events : List (Event ℚ),
        after.history = events.reverse ++ echoingWorld.history ∧
        (events.filterMap (Event.noteOf 0)).countP Note.isTaken ≤ 3) ∧
      (∃ world solver,
        Processed (.ofDepth 9 3) 0 (.setValue ⟨0, 0⟩ (some 5)) echoingWorld 3
          world ∧ world.solvers[0]? = some solver ∧
          solver.nextDeferred.isSome = true) ∧
      ∃ newer called older,
        after.history = newer ++ (called ++ .roundBegan 0 [0] :: older) ∧
        .roundEnded 0 ∉ called ∧
        (called.filterMap (Event.calledBy 0)).Nodup := by
  rcases @carries_bounded ℚ _ 9 3 0 with ⟨ends, opens, bounded, rounds⟩
  have outer : Outer (.ofDepth 9 3) echoingWorld :=
    outer_of_reached (.of_last _ _)
  refine ⟨?_, ?_⟩
  · have tame : ∀ command ∈ echoingCommands ++
        [.operation (.setValue "x" (.literal (some 5)) .chained)],
        command.BringsTame := by
      simp [echoingCommands, Command.BringsTame, Command.Allows, Script.isTame,
        Script.ofList, Command.isTame, Operation.limit?]
    exact ends _ tame
  · have isThere : (echoingWorld.solvers[0]?.any fun solver =>
        decide (solver.settings.cascadeLimit = 3)) = true := by
      decide +kernel
    have tame : ∀ hook ∈ echoingWorld.hooks, hook.body.isTame = true := by
      decide +kernel
    have remains :
        ((process (.ofDepth 9 3) 0 (.setValue ⟨0, 0⟩ (some 5)) echoingWorld
          3).any fun world => world.solvers[0]?.any fun solver =>
          solver.nextDeferred.isSome) = true := by
      decide +kernel
    have shape : (((Action.perform (.ofDepth 9 3) 0
        (Task.setValue ⟨0, 0⟩ (some 5)).edit).run.run echoingWorld).any
      fun ended =>
          decide ((ended.2.history.drop 13).head?.bind bound? =
            some (0, some [0]) ∧ ∀ event ∈ (ended.2.history.drop 1).take 12,
            bound? event ≠ some (0, none))) = true := by
      decide +kernel
    rcases (Option.any_eq_true _ _).mp isThere with ⟨solver, found, isLimit⟩
    rcases (Option.any_eq_true _ _).mp remains with ⟨last, processed, remains⟩
    rcases (Option.any_eq_true _ _).mp remains with ⟨later, isLater, more⟩
    rcases (Option.any_eq_true _ _).mp shape with
      ⟨⟨result, after⟩, yields, shape⟩
    rcases of_decide_eq_true shape with ⟨begins, unbounded⟩
    have carries :
        Carries (.ofDepth 9 3) 0 (.setValue ⟨0, 0⟩ (some 5)) echoingWorld result
          after :=
      .performed yields
    have opens : Opens 0 3 echoingWorld :=
      of_decide_eq_true isLimit ▸ opens echoingWorld solver outer tame found
    rcases bounded _ _ _ _ _ opens carries with ⟨few, raises⟩
    have exceeds : ∃ world solver,
        Processed (.ofDepth 9 3) 0 (.setValue ⟨0, 0⟩ (some 5)) echoingWorld 3
          world ∧ world.solvers[0]? = some solver ∧
          solver.nextDeferred.isSome = true :=
      ⟨last, later, processed_iff.mpr processed, isLater, more⟩
    cases (raises.mp exceeds).1
    refine ⟨after, opens, carries, few, exceeds, ?_⟩
    cases latest : after.history.drop 13 with
    | nil =>
        rw [latest] at begins
        cases begins
    | cons event older =>
        rw [latest] at begins
        cases eq_roundBegan begins
        have split :
            after.history = after.history.take 1 ++
              ((after.history.drop 1).take 12 ++
                .roundBegan 0 [0] :: older) := by
          have begun :
              (after.history.drop 1).drop 12 = .roundBegan 0 [0] :: older :=
            List.drop_drop.trans latest
          rw [← begun, List.take_append_drop, List.take_append_drop]
        have open_ : .roundEnded 0 ∉ (after.history.drop 1).take 12 :=
          fun closed => unbounded _ closed rfl
        exact ⟨_, _, older, split, open_,
          rounds _ _ _ _ _ _ _ _ _ outer carries split open_⟩

end Session

end LiveLinear
