import LiveLinear.Proofs.Elimination.Exact
import LiveLinear.Proofs.Session.Phases
import LiveLinear.Proofs.Session.Steps

namespace LiveLinear

/-! # Quiescence

Between two commands of a session, no solver is dispatching or draining and no
work is put off. -/

variable {α : Type}

/-- Nothing is under way, and no work is put off. -/
structure Solver.Quiet (solver : Solver α) : Prop where
  dispatching : solver.dispatching = false
  draining : solver.draining = false
  rested : solver.Rested

theorem Solver.Quiet.of_steady {solver : Solver α} {draft : Draft α}
    (quiet : solver.Quiet) (steady : Draft.Steady ⟨solver, []⟩ draft) :
    draft.solver.Quiet := by
  have settled : solver.Settled := fun _ => ⟨quiet.draining, quiet.rested⟩
  have idle := steady.dispatching.trans quiet.dispatching
  rcases settled.of_steady steady idle with ⟨notDraining, rested⟩
  exact ⟨idle, notDraining, rested⟩

def World.Quiet (world : World α) : Prop :=
  world.Each fun _ solver => solver.Quiet

/-- Whether the work that is taken up in the course of some events has been put
off in the course of the same events: values in the same order, and solves as
often. -/
structure Event.SelfContained (id : SolverId) (events : List (Event α)) :
    Prop where
  values : ((events.filterMap (Event.noteOf id)).filterMap Note.taken?).Sublist
    ((events.filterMap (Event.noteOf id)).filterMap Note.queued?)
  solves : (events.filterMap (Event.noteOf id)).countP Note.isSolveTaken ≤
    (events.filterMap (Event.noteOf id)).countP Note.isSolveDeferred

namespace World

variable {world before after : World α}

theorem quiet_empty : (World.empty : World α).Quiet := by
  intro id solver found
  cases found

theorem Quiet.settled (quiet : world.Quiet) : world.Settled :=
  fun id solver found _ =>
    ⟨(quiet id solver found).draining, (quiet id solver found).rested⟩

theorem Quiet.of_settled (quiet : before.Quiet) (settled : after.Settled)
    (continues : before.KeepsPhases after) : after.Quiet := by
  have idle : after.Each fun _ solver => solver.dispatching = false :=
    continues.each quiet
      (fun _ _ _ quiet same => same.dispatching.trans quiet.dispatching)
      fun _ _ idle => idle
  intro id solver found
  have notDispatching := idle id solver found
  rcases settled id solver found notDispatching with ⟨notDraining, rested⟩
  exact ⟨notDispatching, notDraining, rested⟩

theorem Quiet.workOf (quiet : world.Quiet) (id : SolverId) :
    world.workOf id = .none := by
  unfold World.workOf
  cases found : world.solvers[id]? with
  | none => rfl
  | some solver =>
      rcases (quiet id solver found).rested with ⟨notPending, empty⟩
      simp only [Option.map_some, Option.getD_some, Solver.work, empty,
        notPending, Work.none]

theorem Accounts.selfContained {events : List (Event α)}
    (accounts : before.Accounts after)
    (history : after.history = events.reverse ++ before.history)
    (quietBefore : before.Quiet) (quietAfter : after.Quiet) (id : SolverId) :
    Event.SelfContained id events := by
  rcases accounts with ⟨recorded, isHistory, accounted⟩
  have same : events.reverse = recorded :=
    List.append_cancel_right (history.symm.trans isHistory)
  have accounted := accounted id
  rw [quietBefore.workOf, quietAfter.workOf, ← same, List.reverse_reverse]
    at accounted
  constructor
  · simpa [Work.none] using accounted.values
  · simpa [Work.none] using accounted.solves

end World

namespace Session

variable [Scalar α]

theorem step_quiet {engine : Engine α} {world : World α} {command : Command α}
    {done : Step α} (sound : engine.Sound) (quiet : world.Quiet)
    (stepped : step engine world command = some done) : done.world.Quiet := by
  rcases (step_runs sound stepped).1.settles quiet.settled with
    ⟨settled, continues⟩
  exact quiet.of_settled settled continues

/-- Whatever its commands do and however they end, between two of them a session
is quiet, and no command takes up work that another one has put off. -/
theorem play_quiescent (patience depth : Nat) (commands : List (Command α)) :
    ∀ done ∈ play (.ofDepth patience depth) .empty commands,
      done.world.Quiet ∧ ∀ id, Event.SelfContained id done.events := by
  intro done member
  have sound : (Engine.ofDepth patience depth : Engine α).Sound :=
    Engine.ofDepth_sound patience depth
  have carried : ∀ before command done, command ∈ commands → before.Quiet →
      step (.ofDepth patience depth) before command = some done → True →
      done.world.Quiet :=
    fun _ _ _ _ quiet stepped _ => step_quiet sound quiet stepped
  rcases play_each commands carried .empty World.quiet_empty
    (fun _ _ => trivial) done member with
    ⟨before, command, _, quiet, stepped⟩
  have quietAfter := step_quiet sound quiet stepped
  rcases step_runs sound stepped with ⟨runs, history⟩
  exact ⟨quietAfter, runs.accounts.selfContained history quiet quietAfter⟩

/-- A session in which a hook puts off a value and a solve; the hook that is
called for that value fails. -/
def deferringSession : List (Step ℚ) :=
  play (.ofDepth 9 3) .empty
    [.operation (.newSolver "s" true true (.literal (some 0)) 10),
      .operation (.addVariable "s" "x" none (.literal (some 1))),
      .operation (.addVariable "s" "y" none (.literal (some 2))),
      .observeInline "x"
        (.ofList
          [(.operation (.setValue "y" (.derived none 2 0) .chained), false),
            (.operation (.solve "s"), false)]) none,
      .observeInline "y"
      (.ofList [(.operation (.raise .runtime "no"), false)]) none,
      .operation (.setValue "x" (.literal (some 5)) .chained)]

theorem play_quiescent_deferringSession :
    ∃ done ∈ deferringSession, done.outcome.isOk = false ∧
      (done.events.filterMap (Event.noteOf 0)).filterMap Note.taken? =
        [(1, 10)] ∧
      done.world.Quiet ∧ ∀ id, Event.SelfContained id done.events := by
  have nonempty : 0 < deferringSession.length := by decide +kernel
  refine ⟨deferringSession.getLast
    (List.ne_nil_of_length_pos (by decide +kernel)), List.getLast_mem _, by
    decide +kernel, by decide +kernel, ?_⟩
  exact play_quiescent 9 3 _ _
    (List.getLast_mem (List.ne_nil_of_length_pos nonempty))

end Session

end LiveLinear
