import LiveLinear.Proofs.Session.Solvers

namespace LiveLinear

/-! # Phases

When a solver dispatches, drains or has work put off. Outside of the rounds that
it calls hooks in, a solver is settled, and every activity leaves the phase of
each solver as it found it. -/

variable {α : Type}

namespace Solver

/-- No work is put off. -/
def Rested (solver : Solver α) : Prop :=
  solver.resolvePending = false ∧ solver.deferred = []

/-- Outside of rounds of hooks, a solver neither drains nor has work put off. -/
def Settled (solver : Solver α) : Prop :=
  solver.dispatching = false → solver.draining = false ∧ solver.Rested

structure SamePhase (before after : Solver α) : Prop where
  dispatching : after.dispatching = before.dispatching
  draining : after.draining = before.draining

namespace SamePhase

theorem refl (solver : Solver α) : solver.SamePhase solver :=
  ⟨rfl, rfl⟩

theorem trans (first second third : Solver α) (left : first.SamePhase second)
    (right : second.SamePhase third) : first.SamePhase third :=
  ⟨right.dispatching.trans left.dispatching, right.draining.trans left.draining⟩

end SamePhase

theorem settled_empty (id : SolverId) (settings : Settings α) :
    (Solver.empty id settings).Settled :=
  fun _ => ⟨rfl, rfl, rfl⟩

theorem rested_of_nextDeferred [Scalar α] {solver : Solver α}
    (nothing : solver.nextDeferred = none) : solver.Rested :=
  (nextDeferred_eq_none.mp nothing).symm

theorem Settled.of_steady {solver : Solver α} {draft : Draft α}
    (settled : solver.Settled) (steady : Draft.Steady ⟨solver, []⟩ draft) :
    draft.solver.Settled := by
  intro idle
  have wasIdle : solver.dispatching = false :=
    steady.dispatching.symm.trans idle
  rcases settled wasIdle with ⟨notDraining, notPending, empty⟩
  rcases steady.idle wasIdle with ⟨sameQueue, pending⟩
  refine ⟨steady.draining.trans notDraining, ?_, sameQueue.trans empty⟩
  cases isPending : draft.solver.resolvePending with
  | false => rfl
  | true => exact (pending isPending).symm.trans notPending

end Solver

open Solver (SamePhase)

namespace World

def Settled (world : World α) : Prop :=
  world.Each fun _ solver => solver.Settled

def SettledBut (world : World α) (id : SolverId) : Prop :=
  world.Each fun other solver => id ≠ other → solver.Settled

variable {world before after : World α} {id : SolverId}

theorem Settled.but (settled : world.Settled) (id : SolverId) :
    world.SettledBut id :=
  fun other solver found _ => settled other solver found

theorem SettledBut.settled (but : world.SettledBut id)
    (one : world.At id Solver.Settled) : world.Settled := by
  intro other solver found
  by_cases same : id = other
  · subst other
    rcases one with ⟨present, isPresent, settled⟩
    rw [found] at isPresent
    cases isPresent
    exact settled
  · exact but other solver found same

theorem SettledBut.change {change : Solver α → Solver α}
    (but : world.SettledBut id) :
    (world.change id change).SettledBut id :=
  Each.change but (fun _ _ _ settled => settled) fun _ _ _ different =>
    absurd rfl different

theorem SettledBut.adopt {solver : Solver α} {draft : Draft α}
    (but : world.SettledBut id) (found : world.solvers[id]? = some solver) :
    (world.adopt id draft).SettledBut id :=
  Each.adopt but found (fun _ _ _ settled => settled) fun _ different =>
    absurd rfl different

abbrev KeepsPhases (before after : World α) : Prop :=
  Continues SamePhase (fun solver => solver.dispatching = false) before after

theorem Settled.setSettings {change : Settings α → Settings α}
    (settled : world.Settled) :
    (world.change id fun solver => solver.setSettings change).Settled :=
  Each.change settled (fun _ _ _ settled => settled) fun _ _ settled => settled

end World

/-! ## What an activity starts from and ends in -/

namespace Activity

def Starts (before : World α) : Activity α → Prop
  | .announcement id moved =>
      before.Settled ∧
        (moved ≠ [] → before.At id fun solver => solver.dispatching = false)
  | .round id _ | .drain id _ =>
      before.SettledBut id ∧ before.At id fun solver =>
        solver.dispatching = false
  | .settlement id =>
      before.SettledBut id ∧
        before.At id fun solver => solver.dispatching = false ∧
        solver.draining = false
  | _ => before.Settled

def Ends (result : Ending α) (after : World α) : Activity α → Prop
  | .round id _ =>
      after.SettledBut id ∧
        after.At id fun solver => ∀ failure, result = .error failure →
          solver.Rested
  | .drain id _ =>
      after.SettledBut id ∧ after.At id fun solver => result = .ok () →
        solver.Rested
  | _ => after.Settled

theorem Starts.of_like {activity : Activity α} {before after : World α}
    (starts : activity.Starts before) (like : before.Like after) :
    activity.Starts after := by
  cases activity with
  | announcement id moved =>
      exact ⟨World.Each.of_like starts.1 like, fun some =>
        (starts.2 some).of_like like⟩
  | round id targets =>
      exact ⟨World.Each.of_like starts.1 like, starts.2.of_like like⟩
  | drain id taken =>
      exact ⟨World.Each.of_like starts.1 like, starts.2.of_like like⟩
  | settlement id =>
      exact ⟨World.Each.of_like starts.1 like, starts.2.of_like like⟩
  | command | script | task | calls => exact World.Each.of_like starts like

theorem Ends.of_like {activity : Activity α} {result : Ending α}
    {before after : World α} (ends : activity.Ends result before)
    (like : before.Like after) :
    activity.Ends result after := by
  cases activity with
  | round id targets =>
      exact ⟨World.Each.of_like ends.1 like, ends.2.of_like like⟩
  | drain id taken =>
      exact ⟨World.Each.of_like ends.1 like, ends.2.of_like like⟩
  | command | script | task | calls | announcement | settlement =>
      exact World.Each.of_like ends like

end Activity

/-! ## What the rules keep -/

section Rules

variable {world before middle after : World α} {id : SolverId}
  {result : Ending α}

theorem World.SettledBut.beginRound {targets : List VariableId}
    (but : world.SettledBut id) :
    ((world.record (.roundBegan id targets)).change id fun solver =>
      { solver with dispatching := true }).Settled := by
  have recorded : (world.record (.roundBegan id targets)).SettledBut id := but
  refine World.Each.change recorded ?_ ?_
  · exact fun _ _ different settled => settled different
  · intro _ _ _ impossible
    cases impossible

theorem World.Settled.phase (settled : world.Settled)
    (idle : world.At id fun solver => solver.dispatching = false) :
    world.At id fun solver => solver.dispatching = false ∧
    solver.draining = false := by
  rcases idle with ⟨solver, found, notDispatching⟩
  exact ⟨solver, found, notDispatching,
    (settled id solver found notDispatching).1⟩

theorem World.KeepsPhases.phase {dispatching draining : Bool}
    (continues : World.KeepsPhases before after)
    (one : before.At id fun solver =>
      solver.dispatching = dispatching ∧ solver.draining = draining) :
    after.At id fun solver =>
      solver.dispatching = dispatching ∧ solver.draining = draining :=
  continues.at_of_at one fun _ _ phase same =>
    ⟨same.dispatching.trans phase.1, same.draining.trans phase.2⟩

theorem World.KeepsPhases.of_same (same : after.solvers = before.solvers) :
    before.KeepsPhases after :=
  World.Continues.of_same SamePhase.refl same

theorem World.KeepsPhases.trans (left : before.KeepsPhases middle)
    (right : middle.KeepsPhases after) : before.KeepsPhases after :=
  World.Continues.trans SamePhase.trans
    (fun _ _ idle related => related.dispatching.trans idle) left right

theorem World.KeepsPhases.starting (continues : middle.KeepsPhases after)
    (same : middle.solvers = before.solvers) : before.KeepsPhases after :=
  (of_same same).trans continues

theorem World.KeepsPhases.ending (continues : before.KeepsPhases middle)
    (same : after.solvers = middle.solvers) : before.KeepsPhases after :=
  continues.trans (of_same same)

theorem World.KeepsPhases.idle (continues : World.KeepsPhases before after)
    (one : before.At id fun solver => solver.dispatching = false) :
    after.At id fun solver => solver.dispatching = false :=
  continues.at_of_at one fun _ _ idle same => same.dispatching.trans idle

/-- A round changes no phase, since hooks keep the mark that it sets and
removes. -/
theorem World.KeepsPhases.round {targets : List VariableId}
    {close : Solver α → Solver α}
    (idle : world.At id fun solver => solver.dispatching = false)
    (calls : World.KeepsPhases
      ((world.record (.roundBegan id targets)).change id fun solver =>
        { solver with dispatching := true }) after)
    (closes : ∀ solver, (close solver).dispatching = false ∧
      (close solver).draining = solver.draining) :
    World.KeepsPhases world
      ((after.change id close).record (.roundEnded id)) := by
  rcases idle with ⟨present, isPresent, notDispatching⟩
  have recorded :
      (world.record (.roundBegan id targets)).solvers[id]? = some present :=
    isPresent
  have around :
      (world.record (.roundBegan id targets)).KeepsPhases
        (after.change id close) := by
    refine World.Continues.around recorded calls ?_
    intro later related
    exact ⟨(closes later).1.trans notDispatching.symm,
      (closes later).2.trans related.draining⟩
  have started : world.KeepsPhases (after.change id close) :=
    around.starting rfl
  exact started.ending rfl

theorem World.KeepsPhases.stopDraining {close : Solver α → Solver α}
    (phase : world.At id fun solver => solver.dispatching = false ∧
      solver.draining = false)
    (drains : World.KeepsPhases
      (world.change id fun solver => { solver with draining := true }) after)
    (closes : ∀ solver, (close solver).dispatching = solver.dispatching ∧
      (close solver).draining = false) :
    World.KeepsPhases world (after.change id close) := by
  rcases phase with ⟨present, isPresent, _, notDraining⟩
  refine World.Continues.around isPresent drains ?_
  intro later related
  exact ⟨(closes later).1.trans related.dispatching,
    (closes later).2.trans notDraining.symm⟩

theorem World.KeepsPhases.closed {targets : List VariableId}
    {close : Solver α → Solver α} {property : Solver α → Prop}
    (idle : world.At id fun solver => solver.dispatching = false)
    (calls : World.KeepsPhases
      ((world.record (.roundBegan id targets)).change id fun solver =>
        { solver with dispatching := true }) after)
    (closes : ∀ solver, property (close solver)) :
    ((after.change id close).record (.roundEnded id)).At id property := by
  rcases idle with ⟨solver, found, _⟩
  have recorded :
    (world.record (.roundBegan id targets)).solvers[id]? = some solver := found
  rcases calls.old id _ (World.getElem?_change_self _ recorded) with
    ⟨later, foundLater, _⟩
  exact ⟨close later, World.getElem?_change_self close foundLater, closes later⟩

end Rules

/-- What is over at once ends as it should if it starts as it should. -/
theorem Activity.Over.settles [Scalar α] {activity : Activity α}
    {world : World α} {result : Ending α} (isOver : activity.Over world result)
    (starts : activity.Starts world) : activity.Ends result world := by
  cases isOver with
  | refused | aside | finished | taskLost | callsDone | callLost => exact starts
  | unmoved => exact starts.1
  | roundSkipped =>
      exact ⟨starts.1, starts.2.imp fun _ _ _ impossible => nomatch impossible⟩
  | settlementLost lost =>
      rcases starts.2 with ⟨solver, found, _⟩
      rw [lost] at found
      cases found
  | settlementLeft found draining =>
      rcases starts.2 with ⟨solver, isPresent, _, idle⟩
      rw [found] at isPresent
      cases isPresent
      rw [draining] at idle
      cases idle
  | drainLost | drainExceeded =>
      exact ⟨starts.1, starts.2.imp fun _ _ impossible => nomatch impossible⟩
  | drained found nothing =>
      exact ⟨starts.1, _, found, fun _ => Solver.rested_of_nextDeferred nothing⟩

/-! ## Edits -/

section Edits

variable [Scalar α] {before : World α} {id : SolverId} {solver : Solver α}
  {draft : Draft α} {result : Except (Failure α) (List VariableId)}

theorem World.KeepsPhases.worked {task : Task α}
    (found : before.solvers[id]? = some solver)
    (yields : task.edit.Yields ⟨solver, []⟩ result draft) :
    before.KeepsPhases (before.adopt id draft) := by
  have steady := Task.edit_steady _ _ _ _ yields
  exact .adopt SamePhase.refl found ⟨steady.dispatching, steady.draining⟩

theorem World.Settled.worked {task : Task α} (settled : before.Settled)
    (found : before.solvers[id]? = some solver)
    (yields : task.edit.Yields ⟨solver, []⟩ result draft) :
    (before.adopt id draft).Settled :=
  World.Each.adopt settled found (fun _ _ _ settled => settled)
    fun settled => settled.of_steady (Task.edit_steady _ _ _ _ yields)

theorem World.idle_of_moved {task : Task α} {moved : List VariableId}
    (found : before.solvers[id]? = some solver)
    (yields : task.edit.Yields ⟨solver, []⟩ (.ok moved) draft)
    (some : moved ≠ []) :
    (before.adopt id draft).At id fun solver => solver.dispatching = false :=
  .adopt found ((Task.edit_steady _ _ _ _ yields).dispatching.trans
    (Task.idle_of_moved yields some))

theorem World.KeepsPhases.served {work : Edit α (List VariableId)}
    (found : before.solvers[id]? = some solver)
    (next : solver.nextDeferred = some work)
    (yields : work.Yields ⟨solver, []⟩ result draft) :
    before.KeepsPhases (before.adopt id draft) := by
  have takes := Solver.takes_of_nextDeferred next yields
  exact .adopt SamePhase.refl found ⟨takes.dispatching, takes.draining⟩

end Edits

/-! ## Activities -/

namespace Activity

variable {world before start middle next final after : World α}
  {first second activity : Activity α} {outcome result : Ending α}

/-- If it starts as it should, an activity ends as it should, and changes no
phase. -/
def Settles (before : World α) (result : Ending α) (after : World α)
    (activity : Activity α) : Prop :=
  activity.Starts before →
    activity.Ends result after ∧ before.KeepsPhases after

namespace Settles

theorem part (settles : first.Settles start outcome final)
    (starts : activity.Starts before → first.Starts start)
    (ends : first.Ends outcome final → activity.Ends result after)
    (begins : before.KeepsPhases start) (closes : final.KeepsPhases after) :
    activity.Settles before result after := by
  intro starting
  rcases settles (starts starting) with ⟨ended, keeps⟩
  exact ⟨ends ended, begins.trans (keeps.trans closes)⟩

theorem parts (settles : first.Settles start outcome middle)
    (later : second.Settles next result after)
    (starts : activity.Starts before → first.Starts start)
    (goesOn : first.Ends outcome middle → second.Starts next)
    (ends : second.Ends result after → activity.Ends result after)
    (begins : before.KeepsPhases start) (between : middle.KeepsPhases next) :
    activity.Settles before result after := by
  intro starting
  rcases settles (starts starting) with ⟨ended, keeps⟩
  rcases later (goesOn ended) with ⟨final, more⟩
  exact ⟨ends final, begins.trans (keeps.trans (between.trans more))⟩

end Settles

/-- A round of hooks leaves its solver in the phase that it found it in. -/
theorem Settles.round {id : SolverId} {targets : List VariableId}
    {close : Solver α → Solver α}
    (calls : (Activity.calls id targets).Settles
      ((before.record (.roundBegan id targets)).change id fun solver =>
        { solver with dispatching := true }) result after)
    (closes : ∀ solver, (close solver).dispatching = false ∧
      (close solver).draining = solver.draining ∧
      ∀ failure, result = .error failure → (close solver).Rested) :
    (Activity.round id targets).Settles before result
      ((after.change id close).record (.roundEnded id)) := by
  rintro ⟨but, idle⟩
  rcases calls but.beginRound with ⟨ends, keeps⟩
  exact ⟨⟨(World.Settled.but ends _).change,
      keeps.closed idle fun solver => (closes solver).2.2⟩,
    keeps.round idle fun solver => ⟨(closes solver).1, (closes solver).2.1⟩⟩

/-- So does the taking up of deferred work. -/
theorem Settles.settlement {id : SolverId} {close : Solver α → Solver α}
    (drains : (Activity.drain id 0).Settles
      (before.change id fun solver => { solver with draining := true }) result
      after)
    (closes : ∀ solver, (close solver).dispatching = solver.dispatching ∧
      (close solver).draining = false ∧
      ((result = .ok () → solver.Rested) → (close solver).Rested)) :
    (Activity.settlement id).Settles before result (after.change id close) := by
  rintro ⟨but, phase⟩
  rcases drains ⟨but.change, phase.change fun _ phase => phase.1⟩ with
    ⟨⟨butAfter, rested⟩, keeps⟩
  refine ⟨butAfter.change.settled (rested.change fun solver rests _ => ?_), ?_⟩
  · exact ⟨(closes solver).2.1, (closes solver).2.2 rests⟩
  · exact keeps.stopDraining phase fun solver =>
      ⟨(closes solver).1, (closes solver).2.1⟩

end Activity

/-- Every activity that starts as it should ends as it should, and changes no
phase. -/
theorem Activity.RunsWith.settles [Scalar α] {known : Activity.Calls α}
    {activity : Activity α} {before after : World α} {result : Ending α}
    (runs : activity.RunsWith known before result after) :
    activity.Settles before result after := by
  have same : ∀ {world : World α}, world.KeepsPhases world := .of_same rfl
  have recorded : ∀ {world : World α} {event : Event α},
      world.KeepsPhases (world.record event) := .of_same rfl
  have setting : ∀ {world : World α} {id : SolverId}
      {change : Settings α → Settings α}, World.KeepsPhases world
        (world.change id fun solver => solver.setSettings change) :=
    .change SamePhase.refl fun _ _ => ⟨rfl, rfl⟩
  have set : ∀ {world : World α} {id : SolverId}
      {change : Settings α → Settings α}, world.Settled →
        (world.change id fun solver => solver.setSettings change).Settled :=
    fun settled => settled.setSettings
  induction runs with
  | relabelled ready _ done induction =>
      exact induction.part (fun starts => starts.of_like ready)
        (fun ends => ends.of_like done) (.of_same ready.solvers)
        (.of_same done.solvers)
  | atOnce isOver => exact fun starts => ⟨isOver.settles starts, same⟩
  | founded =>
      intro starts
      exact ⟨World.Each.addSolver starts fun id => Solver.settled_empty id _,
        .addSolver SamePhase.refl fun _ => rfl⟩
  | changed => exact fun starts => ⟨set starts, setting⟩
  | asked _ _ induction => exact induction
  | defined => exact fun starts => ⟨starts, .of_same rfl⟩
  | observed _ induction => exact induction.part id id (.of_same rfl) same
  | batched _ _ _ induction => exact induction.part set set setting setting
  | batchSolved _ _ _ _ ran solved =>
      exact ran.parts solved set set id setting setting
  | stopped _ _ induction => exact induction.part id id same recorded
  | continued _ _ _ first later =>
      exact first.parts later id id id same recorded
  | taskFailed found yields =>
      exact fun starts =>
        ⟨World.Settled.worked starts found yields, .worked found yields⟩
  | taskDone found yields _ induction =>
      refine induction.part (fun starts => ?_) id (.worked found yields) same
      exact ⟨World.Settled.worked starts found yields,
        World.idle_of_moved found yields⟩
  | unannounced some _ round =>
      intro starts
      have idle := starts.2 some
      rcases round ⟨starts.1.but _, idle⟩ with ⟨⟨but, rested⟩, keeps⟩
      have phase := keeps.phase (starts.1.phase idle)
      refine ⟨but.settled ((phase.and rested).imp ?_), keeps⟩
      exact fun solver holds _ => ⟨holds.1.2, holds.2 _ rfl⟩
  | announced some _ _ round settled =>
      intro starts
      have idle := starts.2 some
      rcases round ⟨starts.1.but _, idle⟩ with ⟨⟨but, _⟩, keeps⟩
      rcases settled ⟨but, keeps.phase (starts.1.phase idle)⟩ with ⟨ends, more⟩
      exact ⟨ends, keeps.trans more⟩
  | roundHeld _ _ calls =>
      exact calls.round fun _ =>
        ⟨rfl, rfl, fun _ impossible => nomatch impossible⟩
  | roundBroken _ _ calls =>
      exact calls.round fun _ => ⟨rfl, rfl, fun _ _ => ⟨rfl, rfl⟩⟩
  | callSkipped _ _ _ later => exact later
  | callFailed _ _ _ _ call => exact call.part id id recorded same
  | called _ _ _ _ _ call later =>
      exact call.parts later id id id recorded recorded
  | settled _ _ _ drains =>
      exact drains.settlement fun _ => ⟨rfl, rfl, fun rested => rested rfl⟩
  | unsettled _ _ _ drains =>
      exact drains.settlement fun _ => ⟨rfl, rfl, fun _ => ⟨rfl, rfl⟩⟩
  | drainFailed found next _ yields =>
      exact fun starts => ⟨⟨starts.1.adopt found,
        .adopt found fun impossible => nomatch impossible⟩,
      .served found next yields⟩
  | drainBroken found next _ yields _ round =>
      have serves := World.KeepsPhases.served found next yields
      refine round.part (fun starts => ?_) (fun ends => ?_) serves same
      · exact ⟨starts.1.adopt found, serves.idle starts.2⟩
      · exact ⟨ends.1, ends.2.imp fun _ _ impossible => nomatch impossible⟩
  | drainContinued found next _ yields _ _ round later =>
      intro starts
      have serves := World.KeepsPhases.served found next yields
      rcases round ⟨starts.1.adopt found, serves.idle starts.2⟩ with
        ⟨⟨but, _⟩, keeps⟩
      have reached := serves.trans keeps
      rcases later ⟨but, reached.idle starts.2⟩ with ⟨ends, more⟩
      exact ⟨ends, reached.trans more⟩

end LiveLinear
