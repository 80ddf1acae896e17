import LiveLinear.Proofs.Session.Quiescence
import LiveLinear.Proofs.Solver.Consistency

namespace LiveLinear

/-! # Consistency of sessions

With exact arithmetic and tolerance zero, the variables of every solver satisfy
all of its constraints between two commands, as long as no command fails. -/

/-! ## Gentle commands -/

/-- Whether an operation makes solvers with tolerance zero only, which solve by
themselves and refuse contradictions, and changes no setting and deletes no
variable. -/
def Operation.isGentle : Operation ℚ → Bool
  | .newSolver _ autoSolve refusesContradiction (.literal (some tolerance)) _ =>
      autoSolve && refusesContradiction && tolerance == 0
  | .newSolver .. | .change .. | .deleteVariable .. => false
  | _ => true

mutual

def Command.isGentle : Command ℚ → Bool
  | .operation operation => operation.isGentle
  | .batch _ body | .defineHook _ body | .observeInline _ body _ =>
      body.isGentle
  | .observe .. => true

def Script.isGentle : Script ℚ → Bool
  | .done => true
  | .next command _ rest => command.isGentle && rest.isGentle

end

theorem Operation.Founds.settings_of_isGentle {operation : Operation ℚ}
    {settings : Settings ℚ} (founds : operation.Founds settings)
    (gentle : operation.isGentle = true) :
    settings.Exact ∧ settings.autoSolve = true := by
  rcases founds.asked with ⟨label, operand, rfl, literal⟩
  unfold Operation.isGentle at gentle
  split at gentle
  · rename_i asked
    cases asked
    simp only [Bool.and_eq_true, beq_iff_eq] at gentle
    rcases gentle with ⟨⟨autoSolve, refuses⟩, zero⟩
    refine ⟨⟨?_, refuses⟩, autoSolve⟩
    rw [literal _ rfl, zero]
  · cases gentle
  · cases gentle
  · cases gentle
  · rename_i noSolver _ _
    exact absurd rfl (noSolver _ _ _ _ _)

namespace Activity

def Gentle : Activity ℚ → Prop
  | .command _ given => given.isGentle = true
  | .script _ body => body.isGentle = true
  | .task _ work => ∀ handle, work ≠ .deleteVariable handle
  | _ => True

theorem Gentle.of_asks {id : SolverId} {context : Option ℚ}
    {command : Command ℚ} {task : Task ℚ}
    (gentle : (Activity.command context command).Gentle)
    (asks : command.Asks id task) : (Activity.task id task).Gentle := by
  intro handle isDeletion
  subst isDeletion
  cases asks
  cases gentle

end Activity

/-! ## Runs without failure -/

/-- Whether an event tells that a command of a hook or a batch has failed. -/
def Event.isFailure : Event α → Bool
  | .commandEnded _ (.error _) => true
  | _ => false

namespace World

/-- No command of a hook or a batch has failed so far. -/
def Unfailing (world : World α) : Prop :=
  ∀ event ∈ world.history, event.isFailure = false

variable {before after : World ℚ}

theorem Unfailing.earlier (unfailing : after.Unfailing)
    (accounts : before.Accounts after) :
    before.Unfailing := by
  rcases accounts with ⟨events, history, _⟩
  intro event member
  apply unfailing
  rw [history]
  exact List.mem_append_right events member

theorem Unfailing.recorded {event : Event ℚ}
    (unfailing : (after.record event).Unfailing) : after.Unfailing :=
  fun other member => unfailing other (List.mem_cons_of_mem _ member)

theorem Unfailing.ended {command : Command ℚ}
    {outcome : Except (Failure ℚ) (Reply ℚ)}
    (unfailing : (after.record (.commandEnded command outcome)).Unfailing) :
    ending outcome = .ok () := by
  cases outcome with
  | ok reply => rfl
  | error failure => cases unfailing _ List.mem_cons_self

end World

/-! ## Consistent worlds -/

theorem Solver.settings_setAuto {solver later : Solver α} {autoSolve : Bool}
    (same : later.settings = (solver.setAuto autoSolve).settings) :
    (later.setAuto solver.settings.autoSolve).settings = solver.settings := by
  simp only [setAuto, setSettings] at same ⊢
  rw [same]

namespace Solver.Consistent

variable {solver : Solver ℚ}

theorem mark (consistent : solver.Consistent) (dispatching draining : Bool) :
    { solver with dispatching, draining }.Consistent :=
  ⟨consistent.coherent, consistent.exactly, consistent.tidy⟩

theorem setAuto_false (consistent : solver.Consistent) :
    (solver.setAuto false).Consistent :=
  ⟨consistent.coherent,
    ⟨consistent.exactly.tolerance, consistent.exactly.refuses⟩,
    fun impossible => nomatch impossible⟩

theorem satisfied (consistent : solver.Consistent) (quiet : solver.Quiet)
    (auto : solver.settings.autoSolve = true) : solver.Satisfied := by
  rcases consistent.tidy auto with satisfied | pending
  · exact satisfied
  · have idle := quiet.rested.1
    rw [pending] at idle
    cases idle

end Solver.Consistent

namespace World

structure Consistent (world : World ℚ) : Prop where
  solvers : world.Each fun _ solver => solver.Consistent
  hooks : ∀ hook ∈ world.hooks, hook.body.isGentle = true

structure ConsistentBut (world : World ℚ) (id : SolverId) : Prop where
  solvers : world.Each fun other solver =>
    solver.Coherent ∧ solver.settings.Exact ∧ (id ≠ other → solver.Tidy)
  hooks : ∀ hook ∈ world.hooks, hook.body.isGentle = true

abbrev KeepsSettings (before after : World ℚ) : Prop :=
  Continues (fun solver later => later.settings = solver.settings)
    (fun solver => solver.settings.autoSolve = true) before after

namespace KeepsSettings

variable {before middle after : World ℚ} {id : SolverId}

theorem of_same (same : after.solvers = before.solvers) :
    before.KeepsSettings after :=
  Continues.of_same (fun _ => rfl) same

theorem trans (left : before.KeepsSettings middle)
    (right : middle.KeepsSettings after) :
    before.KeepsSettings after :=
  Continues.trans (fun _ _ _ first second => second.trans first)
    (fun _ _ auto same => by rw [same]; exact auto) left right

theorem starting (keeps : middle.KeepsSettings after)
    (same : middle.solvers = before.solvers) : before.KeepsSettings after :=
  (of_same same).trans keeps

theorem ending (keeps : before.KeepsSettings middle)
    (same : after.solvers = middle.solvers) :
    before.KeepsSettings after :=
  keeps.trans (of_same same)

/-- A batch sets automatic solving back. -/
theorem batch {solver : Solver ℚ} (found : before.solvers[id]? = some solver)
    (body : (before.change id fun solver => solver.setAuto false).KeepsSettings
      after) :
    before.KeepsSettings
      (after.change id fun later =>
        later.setAuto solver.settings.autoSolve) :=
  .around found body fun _ related => Solver.settings_setAuto related

theorem mark {dispatching draining : Solver ℚ → Bool} :
    before.KeepsSettings (before.change id fun solver =>
      { solver with
        dispatching := dispatching solver
        draining := draining solver }) :=
  .change (fun _ => rfl) fun _ _ => rfl

end KeepsSettings

variable {world before after : World ℚ} {id : SolverId}

namespace Consistent

theorem of_like (consistent : before.Consistent) (like : before.Like after) :
    after.Consistent := by
  refine ⟨World.Each.of_like consistent.solvers like, ?_⟩
  rw [like.hooks]
  exact consistent.hooks

theorem record {event : Event ℚ} (consistent : world.Consistent) :
    (world.record event).Consistent :=
  ⟨consistent.solvers, consistent.hooks⟩

theorem but (consistent : world.Consistent) (id : SolverId) :
    world.ConsistentBut id := by
  refine ⟨fun other solver found => ?_, consistent.hooks⟩
  have holds := consistent.solvers other solver found
  exact ⟨holds.coherent, holds.exactly, fun _ => holds.tidy⟩

theorem change {change : Solver ℚ → Solver ℚ} (consistent : world.Consistent)
    (changed : ∀ solver : Solver ℚ, solver.Consistent →
      (change solver).Consistent) :
    (world.change id change).Consistent :=
  ⟨World.Each.change consistent.solvers (fun _ _ _ holds => holds)
    fun solver _ holds => changed solver holds, consistent.hooks⟩

theorem mark (consistent : world.Consistent)
    {dispatching draining : Solver ℚ → Bool} :
    (world.change id fun solver =>
      { solver with
        dispatching := dispatching solver
        draining := draining solver }).Consistent :=
  consistent.change fun _ holds => holds.mark _ _

theorem setAuto_false (consistent : world.Consistent) :
    (world.change id fun solver => solver.setAuto false).Consistent :=
  consistent.change fun _ holds => holds.setAuto_false

theorem addHook (consistent : world.Consistent) {label : String}
    {body : Script ℚ} (gentle : body.isGentle = true) :
    (world.addHook label body).Consistent := by
  refine ⟨consistent.solvers, fun hook member => ?_⟩
  rcases List.mem_append.mp member with old | new
  · exact consistent.hooks hook old
  · rw [List.mem_singleton.mp new]
    exact gentle

theorem addSolver (consistent : world.Consistent) {settings : Settings ℚ}
    (exactly : settings.Exact) : (world.addSolver settings).Consistent :=
  ⟨World.Each.addSolver consistent.solvers fun id => .empty id exactly,
    consistent.hooks⟩

theorem adopt (consistent : world.Consistent) {solver : Solver ℚ}
    {draft : Draft ℚ} (found : world.solvers[id]? = some solver)
    (drafted : draft.solver.Consistent) :
    (world.adopt id draft).Consistent :=
  ⟨World.Each.adopt consistent.solvers found (fun _ _ _ holds => holds) fun _ =>
    drafted, consistent.hooks⟩

theorem listener {solver : Solver ℚ} {target : VariableId} {hook : Hook ℚ}
    {value : ℚ} (consistent : world.Consistent)
    (listens : world.listener solver target = some (hook, value)) :
    hook.body.isGentle = true :=
  consistent.hooks hook (World.mem_hooks_of_listener listens)

theorem setAuto (consistent : world.Consistent) (autoSolve : Bool) :
    (world.change id fun solver => solver.setAuto autoSolve).ConsistentBut
      id := by
  refine ⟨?_, consistent.hooks⟩
  refine World.Each.change (consistent.but id).solvers
    (fun _ _ _ holds => holds) ?_
  intro solver _ holds
  exact ⟨holds.1, ⟨holds.2.1.tolerance, holds.2.1.refuses⟩, fun different =>
    absurd rfl different⟩

end Consistent

namespace ConsistentBut

theorem of_like (but : before.ConsistentBut id) (like : before.Like after) :
    after.ConsistentBut id := by
  refine ⟨World.Each.of_like but.solvers like, ?_⟩
  rw [like.hooks]
  exact but.hooks

theorem adopt (but : world.ConsistentBut id) {solver : Solver ℚ}
    {draft : Draft ℚ} (found : world.solvers[id]? = some solver)
    (drafted : draft.solver.Consistent) :
    (world.adopt id draft).Consistent := by
  refine ⟨World.Each.adopt but.solvers found ?_ fun _ => drafted, but.hooks⟩
  intro other solver different holds
  exact ⟨holds.1, holds.2.1, holds.2.2 different⟩

end ConsistentBut

end World

namespace Activity

def Relies (before : World ℚ) : Activity ℚ → Prop
  | .task id .solve => before.ConsistentBut id
  | _ => before.Consistent

theorem Relies.of_like {activity : Activity ℚ} {before after : World ℚ}
    (relies : activity.Relies before) (like : before.Like after) :
    activity.Relies after := by
  cases activity with
  | task id task =>
      cases task with
      | solve => exact World.ConsistentBut.of_like relies like
      | _ => exact World.Consistent.of_like relies like
  | _ => exact World.Consistent.of_like relies like

theorem Relies.of_consistent {id : SolverId} {task : Task ℚ} {before : World ℚ}
    (consistent : before.Consistent) :
    (Activity.task id task).Relies before := by
  cases task with
  | solve => exact consistent.but id
  | _ => exact consistent

theorem Relies.adopt {id : SolverId} {task : Task ℚ} {before : World ℚ}
    {solver : Solver ℚ} {draft : Draft ℚ} {moved : List VariableId}
    (relies : (Activity.task id task).Relies before)
    (gentle : (Activity.task id task).Gentle)
    (found : before.solvers[id]? = some solver)
    (yields : task.edit.Yields ⟨solver, []⟩ (.ok moved) draft) :
    (before.adopt id draft).Consistent := by
  cases task with
  | solve =>
      have but : before.ConsistentBut id := relies
      rcases but.solvers id solver found with ⟨coherent, exactly, _⟩
      exact but.adopt found (.of_solve coherent exactly yields)
  | _ =>
      have consistent : before.Consistent := relies
      exact consistent.adopt found
        ((consistent.solvers id solver found).of_edit gentle yields)

end Activity

theorem Activity.Over.consistent {activity : Activity ℚ} {world : World ℚ}
    {result : Ending ℚ} (isOver : activity.Over world result)
    (ended : result = .ok ()) (relies : activity.Relies world) :
    world.Consistent := by
  cases isOver with
  | refused | taskLost | callLost | settlementLost | drainLost
      | drainExceeded =>
      cases ended
  | aside | finished | unmoved | roundSkipped | callsDone | settlementLeft
  | drained => exact relies

namespace World

structure Upkeep (before after : World ℚ) : Prop where
  consistent : after.Consistent
  settings : before.KeepsSettings after

namespace Upkeep

variable {world before start middle after : World ℚ} {id : SolverId}

theorem refl (consistent : world.Consistent) : world.Upkeep world :=
  ⟨consistent, .of_same rfl⟩

theorem trans (first : before.Upkeep middle) (later : middle.Upkeep after) :
    before.Upkeep after :=
  ⟨later.consistent, first.settings.trans later.settings⟩

theorem starting (keeps : start.Upkeep after)
    (same : start.solvers = before.solvers) : before.Upkeep after :=
  ⟨keeps.consistent, keeps.settings.starting same⟩

theorem of_like (keeps : before.Upkeep middle) (like : middle.Like after) :
    before.Upkeep after :=
  ⟨keeps.consistent.of_like like, keeps.settings.ending like.solvers⟩

theorem record (keeps : before.Upkeep after) (event : Event ℚ) :
    before.Upkeep (after.record event) :=
  ⟨keeps.consistent.record, keeps.settings.ending rfl⟩

theorem marks
    {firstDispatching firstDraining dispatching draining : Solver ℚ → Bool}
    (keeps : (before.change id fun solver =>
      { solver with
        dispatching := firstDispatching solver
        draining := firstDraining solver }).Upkeep after) :
    before.Upkeep (after.change id fun solver =>
      { solver with
        dispatching := dispatching solver
        draining := draining solver }) :=
  ⟨keeps.consistent.mark,
    KeepsSettings.mark.trans (keeps.settings.trans .mark)⟩

end Upkeep

variable {world : World ℚ} {id : SolverId} {solver : Solver ℚ} {draft : Draft ℚ}
  {moved : List VariableId}

theorem Upkeep.worked {task : Task ℚ}
    (relies : (Activity.task id task).Relies world)
    (gentle : (Activity.task id task).Gentle)
    (found : world.solvers[id]? = some solver)
    (yields : task.edit.Yields ⟨solver, []⟩ (.ok moved) draft) :
    world.Upkeep (world.adopt id draft) :=
  ⟨relies.adopt gentle found yields,
    .adopt (fun _ => rfl) found (Task.edit_steady _ _ _ _ yields).settings⟩

theorem Upkeep.served {work : Edit ℚ (List VariableId)}
    (consistent : world.Consistent) (found : world.solvers[id]? = some solver)
    (next : solver.nextDeferred = some work)
    (yields : work.Yields ⟨solver, []⟩ (.ok moved) draft) :
    world.Upkeep (world.adopt id draft) :=
  ⟨consistent.adopt found
      ((consistent.solvers _ _ found).of_nextDeferred next yields),
    .adopt (fun _ => rfl) found
    (Solver.takes_of_nextDeferred next yields).settings⟩

end World

/-- Without failure, what is gentle keeps a world consistent, and keeps all
settings. -/
theorem Activity.RunsWith.keepsConsistent {known : Activity.Calls ℚ}
    {activity : Activity ℚ} {before after : World ℚ} {result : Ending ℚ}
    (runs : activity.RunsWith known before result after) :
    activity.Gentle → result = .ok () → after.Unfailing →
      activity.Relies before → before.Upkeep after := by
  induction runs with
  | relabelled ready _ done induction =>
      intro gentle ended unfailing relies
      have keeps := induction gentle ended (unfailing.earlier (.of_like done))
        (relies.of_like ready)
      exact (keeps.starting ready.solvers).of_like done
  | atOnce isOver =>
      exact fun _ ended _ relies => .refl (isOver.consistent ended relies)
  -- Without failure, nothing goes this way.
  | taskFailed | unannounced | roundBroken | callFailed | unsettled
      | drainFailed | drainBroken | stopped =>
      exact fun _ impossible => nomatch impossible
  | changed => exact fun impossible => nomatch impossible
  | founded founds =>
      intro gentle _ _ consistent
      rcases founds.settings_of_isGentle gentle with ⟨exactly, auto⟩
      exact ⟨World.Consistent.addSolver consistent exactly,
        .addSolver (fun _ => rfl) fun _ => auto⟩
  | asked asks _ induction =>
      intro gentle ended unfailing consistent
      exact induction (gentle.of_asks asks) ended unfailing
        (.of_consistent consistent)
  | defined =>
      intro gentle _ _ consistent
      exact ⟨World.Consistent.addHook consistent gentle, .of_same rfl⟩
  | observed _ induction =>
      intro gentle ended unfailing consistent
      have keeps := induction (fun _ impossible => nomatch impossible) ended
        unfailing (World.Consistent.addHook consistent gentle)
      exact keeps.starting rfl
  | batched found _ noSolve induction =>
      intro gentle ended unfailing consistent
      have keeps := induction gentle ended unfailing
        (World.Consistent.setAuto_false consistent)
      refine ⟨?_, .batch found keeps.settings⟩
      rw [noSolve ended]
      exact keeps.consistent.setAuto_false
  | batchSolved found _ _ solves ran solved =>
      intro gentle ended unfailing consistent
      have unfailingBody := unfailing.earlier solves.accounts
      have keeps := ran gentle rfl unfailingBody
        (World.Consistent.setAuto_false consistent)
      have later := solved nofun ended unfailing (keeps.consistent.setAuto _)
      exact ⟨later.consistent,
        .trans (.batch found keeps.settings) later.settings⟩
  | continued _ _ laterRuns first later =>
      intro gentle ended unfailing consistent
      rcases Bool.and_eq_true_iff.mp gentle with ⟨gentleFirst, gentleRest⟩
      have recorded := unfailing.earlier laterRuns.accounts
      have keeps := first gentleFirst recorded.ended recorded.recorded
        consistent
      exact (keeps.record _).trans
        (later gentleRest ended unfailing keeps.consistent.record)
  | taskDone found yields _ induction =>
      intro gentle ended unfailing relies
      have works := World.Upkeep.worked relies gentle found yields
      exact works.trans (induction trivial ended unfailing works.consistent)
  | announced _ _ settledRuns round settled =>
      intro _ ended unfailing consistent
      have keeps := round trivial rfl (unfailing.earlier settledRuns.accounts)
        consistent
      exact keeps.trans (settled trivial ended unfailing keeps.consistent)
  | roundHeld _ _ calls =>
      intro _ _ unfailing consistent
      have keeps := calls trivial rfl unfailing.recorded
        (World.Consistent.record consistent).mark
      exact World.Upkeep.starting (keeps.marks.record _) rfl
  | callSkipped _ _ _ later => exact later
  | called _ listens _ _ laterRuns call later =>
      intro _ ended unfailing consistent
      have returned := unfailing.earlier laterRuns.accounts
      have keeps := call (World.Consistent.listener consistent listens) rfl
        returned.recorded (World.Consistent.record consistent)
      have more := later trivial ended unfailing keeps.consistent.record
      exact World.Upkeep.starting ((keeps.record _).trans more) rfl
  | settled _ _ _ drains =>
      intro _ _ unfailing consistent
      have keeps := drains trivial rfl unfailing
        (World.Consistent.mark consistent)
      exact keeps.marks
  | drainContinued found next _ yields _ laterRuns round later =>
      intro _ ended unfailing consistent
      have serves := World.Upkeep.served consistent found next yields
      have keeps := serves.trans (round trivial rfl
        (unfailing.earlier laterRuns.accounts) serves.consistent)
      exact keeps.trans (later trivial ended unfailing keeps.consistent)

namespace Session

/-- No command has failed in a step: neither its own nor any of a hook or a
batch. -/
structure Step.Unfailing (done : Step ℚ) : Prop where
  outcome : done.outcome.isOk = true
  events : ∀ event ∈ done.events, event.isFailure = false

structure Stable (world : World ℚ) : Prop where
  consistent : world.Consistent
  auto : world.Each fun _ solver => solver.settings.autoSolve = true
  quiet : world.Quiet
  unfailing : world.Unfailing

theorem stable_empty : Stable .empty := by
  refine ⟨⟨?_, ?_⟩, ?_, World.quiet_empty, ?_⟩
  · exact fun _ _ found => nomatch found
  · exact fun _ member => nomatch member
  · exact fun _ _ found => nomatch found
  · exact fun _ member => nomatch member

theorem Stable.satisfied {world : World ℚ} (stable : Stable world)
    {solver : Solver ℚ} (member : solver ∈ world.solvers) :
    solver.Satisfied := by
  rcases List.mem_iff_getElem?.mp member with ⟨id, found⟩
  exact (stable.consistent.solvers id solver found).satisfied
    (stable.quiet id solver found) (stable.auto id solver found)

theorem step_stable {engine : Engine ℚ} {world : World ℚ} {command : Command ℚ}
    {done : Step ℚ} (sound : engine.Sound) (gentle : command.isGentle = true)
    (stable : Stable world) (stepped : step engine world command = some done)
    (unfailing : done.Unfailing) : Stable done.world := by
  rcases step_runs sound stepped with ⟨runs, history⟩
  have unfailingAfter : done.world.Unfailing := by
    intro event member
    rw [history] at member
    rcases List.mem_append.mp member with new | old
    · exact unfailing.events event (List.mem_reverse.mp new)
    · exact stable.unfailing event old
  have ended : ending done.outcome = .ok () := by
    cases isOutcome : done.outcome with
    | ok reply => rfl
    | error failure =>
        have isOk := unfailing.outcome
        rw [isOutcome] at isOk
        cases isOk
  rcases runs.keepsConsistent gentle ended unfailingAfter stable.consistent with
    ⟨consistent, keeps⟩
  have auto :=
    keeps.each stable.auto (fun _ _ _ auto same => by rw [same]; exact auto)
      fun _ _ auto => auto
  exact ⟨consistent, auto, step_quiet sound stable.quiet stepped,
    unfailingAfter⟩

/-- As long as no command fails, at any level, the variables satisfy every
constraint of every solver after each command. -/
theorem play_satisfied (patience depth : Nat) (commands : List (Command ℚ))
    (gentle : ∀ command ∈ commands, command.isGentle = true)
    (unfailing : ∀ done ∈ play (.ofDepth patience depth) .empty commands,
      done.Unfailing) :
    ∀ done ∈ play (.ofDepth patience depth) .empty commands,
      ∀ solver ∈ done.world.solvers, ∀ constraint ∈ solver.constraints.values,
        solver.residual constraint = 0 := by
  intro done member solver isSolver
  have sound : (Engine.ofDepth patience depth : Engine ℚ).Sound :=
    Engine.ofDepth_sound patience depth
  have carried : ∀ before command done, command ∈ commands → Stable before →
      step (.ofDepth patience depth) before command = some done →
      done.Unfailing →
        Stable done.world :=
    fun _ command _ isCommand stable stepped =>
      step_stable sound (gentle command isCommand) stable stepped
  rcases play_each commands carried .empty stable_empty unfailing done
    member with
    ⟨before, command, isCommand, stable, stepped⟩
  exact (carried before command done isCommand stable stepped
    (unfailing done member)).satisfied isSolver

/-- Commands with a hook that puts off a value, and the solve at the end of a
batch. -/
def followingCommands : List (Command ℚ) :=
  [.operation (.newSolver "s" true true (.literal (some 0)) 10),
    .operation (.addVariable "s" "x" none (.literal (some 1))),
    .operation (.addVariable "s" "y" none (.literal (some 2))),
    .operation (.addConstraint "s" (some "c")
      [(.label "x", .literal (some 1)), (.label "y", .literal (some 3))]
      (.literal (some 10))),
    .observeInline "x"
      (.ofList
        [(.operation (.setValue "y" (.literal (some 2)) .chained), false),
          (.batch "s"
            (.ofList
              [(.operation (.setSum "c" (.literal (some 13)) .chained),
                false)]), false)])
      none,
    .operation (.setValue "x" (.literal (some 7)) .chained),
    .operation (.lock "y")]

theorem play_satisfied_followingCommands :
    (∃ done ∈ play (.ofDepth 9 3) .empty followingCommands,
      (done.events.filterMap (Event.noteOf 0)).filterMap Note.taken? =
        [(1, 2)] ∧ ∃ solver ∈ done.world.solvers,
          solver.constraints.values.map (·.sum) = [13]) ∧
      (∀ done ∈ play (.ofDepth 9 3) .empty followingCommands, done.Unfailing) ∧
      ∀ done ∈ play (.ofDepth 9 3) .empty followingCommands,
        ∀ solver ∈ done.world.solvers, ∀ constraint ∈ solver.constraints.values,
          solver.residual constraint = 0 := by
  have checked : ∀ done ∈ play (.ofDepth 9 3) .empty followingCommands,
      done.outcome.isOk = true ∧ ∀ event ∈ done.events,
      event.isFailure = false := by
    decide +kernel
  have unfailing : ∀ done ∈ play (.ofDepth 9 3) .empty followingCommands,
      done.Unfailing :=
    fun done member => ⟨(checked done member).1, (checked done member).2⟩
  refine ⟨by decide +kernel, unfailing, ?_⟩
  exact play_satisfied 9 3 followingCommands (by decide +kernel) unfailing

end Session

end LiveLinear
