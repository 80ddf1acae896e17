import LiveLinear.Proofs.Session.Meanwhile
import LiveLinear.Proofs.Session.Phases
import LiveLinear.Proofs.Solver.Turns

namespace LiveLinear

/-! # Attending to a solver

What one solver goes through while others, and its own hooks, are at work: in
its rounds it only puts work off, and after them it takes up what has been put
off, turn by turn, to the end or until something fails. -/

variable {α : Type}

namespace Solver

def atRest (solver : Solver α) : Solver α :=
  { solver.dropDeferred with dispatching := false, draining := false }

variable [Scalar α]

structure Attends (former : Solver α) (notes : List (Note α))
    (later : Solver α) : Prop where
  turns : former.Turns notes later
  phase : former.SamePhase later
  defers : former.work.Defers notes later.work

structure KeepsOn (former : Solver α) (notes : List (Note α))
    (later : Solver α) : Prop where
  turns : former.Turns notes later
  phase : former.SamePhase later

/-- How the turns of a solver come to an end before its work is done: a hook has
failed, there has been too much work, or an item of the work has failed. -/
inductive Breaks (cause : Failure α) (last : Solver α) : List (Note α) →
    Solver α → Prop
  | raised (busy : last.dispatching = true) : Breaks cause last [] last
  | exceeded (idle : last.dispatching = false)
      (more : last.nextDeferred.isSome = true)
      (limit : cause = .cascade last.settings.cascadeLimit) :
      Breaks cause last [] last
  | failed {work : Edit α (List VariableId)} (idle : last.dispatching = false)
      (next : last.nextDeferred = some work)
      (yields : work.Yields ⟨last, []⟩ (.error cause) draft) :
      Breaks cause last draft.notes.reverse draft.solver

/-- What a solver goes through from the first round of an operation to the end
of the operation. -/
def Goes (result : Ending α) (former : Solver α) (notes : List (Note α))
    (later : Solver α) :
    Prop :=
  match result with
  | .ok _ => former.KeepsOn notes later
  | .error cause => ∃ earlier last final broken, notes = earlier ++ final ∧
      former.Turns earlier last ∧ last.Breaks cause final broken ∧
      later.atRest = broken.atRest

namespace Attends

variable {former middle later : Solver α} {notes earlier final : List (Note α)}

theorem refl (solver : Solver α) : solver.Attends [] solver :=
  ⟨.refl, .refl solver, .refl _⟩

theorem trans (left : former.Attends earlier middle)
    (right : middle.Attends final later) :
    former.Attends (earlier ++ final) later :=
  ⟨left.turns.trans right.turns, .trans _ _ _ left.phase right.phase,
    left.defers.trans right.defers⟩

theorem setSettings (solver : Solver α) (change : Settings α → Settings α) :
    solver.Attends [] (solver.setSettings change) :=
  ⟨.single
    (.marked (change solver.settings) solver.dispatching solver.draining),
    ⟨rfl, rfl⟩, .refl _⟩

theorem asked {task : Task α} {draft : Draft α}
    {result : Except (Failure α) (List VariableId)}
    (busy : former.dispatching = true)
    (yields : task.edit.Yields ⟨former, []⟩ result draft) :
    former.Attends draft.notes.reverse draft.solver := by
  have steady := Task.edit_steady _ _ _ _ yields
  rcases Task.edit_waits _ _ _ _ yields busy with ⟨_, _, notes, isNotes, defers⟩
  rw [List.append_nil] at isNotes
  rw [← isNotes] at defers
  exact ⟨.single (.asked busy yields), ⟨steady.dispatching, steady.draining⟩,
    defers⟩

end Attends

namespace KeepsOn

variable {former middle later : Solver α} {notes earlier final : List (Note α)}

theorem refl (solver : Solver α) : solver.KeepsOn [] solver :=
  ⟨.refl, .refl solver⟩

theorem trans (left : former.KeepsOn earlier middle)
    (right : middle.KeepsOn final later) :
    former.KeepsOn (earlier ++ final) later :=
  ⟨left.turns.trans right.turns, .trans _ _ _ left.phase right.phase⟩

theorem of_served {work : Edit α (List VariableId)} {moved : List VariableId}
    {draft : Draft α} (idle : former.dispatching = false)
    (next : former.nextDeferred = some work)
    (yields : work.Yields ⟨former, []⟩ (.ok moved) draft) :
    former.KeepsOn draft.notes.reverse draft.solver := by
  have takes := takes_of_nextDeferred next yields
  exact ⟨.single (.served idle next yields), takes.dispatching, takes.draining⟩

theorem goes {result : Ending α} (keepsOn : former.KeepsOn earlier middle)
    (goes : Goes result middle final later) :
    Goes result former (earlier ++ final) later := by
  cases result with
  | ok _ => exact keepsOn.trans goes
  | error cause =>
      rcases goes with ⟨between, last, rest, broken, rfl, turns, breaks, atRest⟩
      exact ⟨earlier ++ between, last, rest, broken,
        (List.append_assoc ..).symm, keepsOn.turns.trans turns, breaks, atRest⟩

end KeepsOn

end Solver

/-! ## One solver of a world -/

namespace World

/-- What one solver goes through between two worlds, with the notes that it
makes. -/
def Undergoes (before after : World α) (id : SolverId)
    (way : Solver α → List (Note α) → Solver α → Prop) : Prop :=
  ∃ events, after.history = events ++ before.history ∧
    ∃ former later, before.solvers[id]? = some former ∧
      after.solvers[id]? = some later ∧
      way former (events.reverse.filterMap (Event.noteOf id)) later

namespace Undergoes

variable {world before middle after start final : World α} {id : SolverId}
  {solver : Solver α} {way first second : Solver α → List (Note α) →
    Solver α → Prop}

theorem trans (left : before.Undergoes middle id first)
    (right : middle.Undergoes after id second)
    (joined : ∀ former earlier between rest later,
      first former earlier between → second between rest later →
      way former (earlier ++ rest) later) :
    before.Undergoes after id way := by
  rcases left with
    ⟨earlier, leftHistory, former, between, isFormer, isBetween, goes⟩
  rcases right with ⟨later, rightHistory, same, last, isSame, isLast, goesOn⟩
  rw [isBetween] at isSame
  cases isSame
  refine ⟨later ++ earlier, ?_, former, last, isFormer, isLast, ?_⟩
  · rw [rightHistory, leftHistory, List.append_assoc]
  · rw [List.reverse_append, List.filterMap_append]
    exact joined _ _ _ _ _ goes goesOn

theorem of_like (undergoes : start.Undergoes final id way)
    (ready : before.Like start) (done : final.Like after) :
    before.Undergoes after id way := by
  rcases undergoes with
    ⟨events, history, former, later, isFormer, isLater, goes⟩
  rw [ready.solvers] at isFormer
  rw [← done.solvers] at isLater
  refine ⟨events, ?_, former, later, isFormer, isLater, goes⟩
  rw [done.history, history, ready.history]

theorem of_unnoted (events : List (Event α)) {later : Solver α}
    (history : after.history = events ++ before.history)
    (unnoted : ∀ event ∈ events, event.noteOf id = none)
    (found : before.solvers[id]? = some solver)
    (isLater : after.solvers[id]? = some later) (goes : way solver [] later) :
    before.Undergoes after id way := by
  refine ⟨events, history, solver, later, found, isLater, ?_⟩
  have nothing : events.reverse.filterMap (Event.noteOf id) = [] :=
    List.filterMap_eq_nil_iff.mpr fun event member =>
      unnoted event (List.mem_reverse.mp member)
  rw [nothing]
  exact goes

theorem adopt {draft : Draft α} (found : world.solvers[id]? = some solver)
    (goes : way solver draft.notes.reverse draft.solver) :
    world.Undergoes (world.adopt id draft) id way := by
  refine ⟨_, rfl, solver, draft.solver, found,
    getElem?_adopt_self draft found, ?_⟩
  rw [← List.map_reverse, Accounts.filterMap_noted_self]
  exact goes

theorem adopt_of_ne {other : SolverId} {draft : Draft α}
    (different : other ≠ id) (found : world.solvers[id]? = some solver)
    (goes : way solver [] solver) :
    world.Undergoes (world.adopt other draft) id way := by
  refine of_unnoted (draft.notes.map (.noted other)) rfl ?_ found ?_ goes
  · intro event member
    rcases List.mem_map.mp member with ⟨note, _, rfl⟩
    exact if_neg different
  · rw [getElem?_adopt_of_ne draft different]
    exact found

theorem change {change : Solver α → Solver α}
    (found : world.solvers[id]? = some solver)
    (goes : way solver [] (change solver)) :
    world.Undergoes (world.change id change) id way :=
  of_unnoted [] rfl (by simp) found (getElem?_change_self change found) goes

theorem around {start finish : Solver α → Solver α}
    (found : world.solvers[id]? = some solver)
    (between : (world.change id start).Undergoes after id first)
    (joined : ∀ notes later, first (start solver) notes later →
      way solver notes (finish later)) :
    world.Undergoes (after.change id finish) id way := by
  rcases between with ⟨events, history, former, later, isFormer, isLater, goes⟩
  have started := getElem?_change_self start found
  rw [isFormer] at started
  cases started
  exact ⟨events, history, solver, finish later, found,
    getElem?_change_self finish isLater, joined _ _ goes⟩

theorem recorded {begins ends : Event α}
    (unnoted : begins.noteOf id = none ∧ ends.noteOf id = none)
    (undergoes : (before.record begins).Undergoes after id way) :
    before.Undergoes (after.record ends) id way := by
  rcases undergoes with
    ⟨events, history, former, later, isFormer, isLater, goes⟩
  refine ⟨ends :: (events ++ [begins]), ?_, former, later, isFormer,
    isLater, ?_⟩
  · rw [record, history, record, List.cons_append, List.append_assoc]
    rfl
  · have notes :
        (ends :: (events ++ [begins])).reverse.filterMap (Event.noteOf id) =
          events.reverse.filterMap (Event.noteOf id) := by
      simp [unnoted]
    rw [notes]
    exact goes

end Undergoes

end World

/-! ## In the rounds of a solver -/

section Rounds

variable [Scalar α]

namespace World

def Attends (before after : World α) (id : SolverId) : Prop :=
  (before.At id fun solver => solver.dispatching = true) →
    before.Undergoes after id Solver.Attends ∧ after.At id fun solver =>
    solver.dispatching = true

variable {world before middle after : World α} {id other : SolverId}

namespace Attends

theorem of_undergoes
    (attends : (before.At id fun solver => solver.dispatching = true) →
      before.Undergoes after id Solver.Attends) : before.Attends after id := by
  intro busy
  have undergoes := attends busy
  rcases undergoes with
    ⟨events, history, former, later, isFormer, isLater, attended⟩
  rcases busy with ⟨same, isSame, dispatching⟩
  rw [isFormer] at isSame
  cases isSame
  exact ⟨attends ⟨former, isFormer, dispatching⟩, later, isLater,
    attended.phase.dispatching.trans dispatching⟩

theorem trans (left : before.Attends middle id)
    (right : middle.Attends after id) :
    before.Attends after id := by
  intro busy
  rcases left busy with ⟨first, stillBusy⟩
  rcases right stillBusy with ⟨second, busyAfter⟩
  exact ⟨first.trans second fun _ _ _ _ _ => .trans, busyAfter⟩

theorem of_same (events : List (Event α))
    (history : after.history = events ++ before.history)
    (unnoted : ∀ event ∈ events, event.noteOf id = none)
    (same : ∀ solver, before.solvers[id]? = some solver →
      after.solvers[id]? = some solver) :
    before.Attends after id := by
  apply of_undergoes
  rintro ⟨solver, found, _⟩
  exact .of_unnoted events history unnoted found (same solver found)
    (.refl solver)

theorem refl (world : World α) (id : SolverId) : world.Attends world id :=
  of_same [] rfl (by simp) fun _ found => found

theorem setSettings {change : Settings α → Settings α} :
    world.Attends (world.change other fun solver => solver.setSettings change)
      id := by
  apply of_undergoes
  rintro ⟨solver, found, _⟩
  by_cases same : other = id
  · subst other
    exact .change found (.setSettings solver change)
  · exact .of_unnoted [] rfl (by simp) found
      ((getElem?_change_of_ne _ same).trans found) (.refl solver)

theorem worked {task : Task α} {solver : Solver α} {draft : Draft α}
    {result : Except (Failure α) (List VariableId)}
    (found : world.solvers[other]? = some solver)
    (yields : task.edit.Yields ⟨solver, []⟩ result draft) :
    world.Attends (world.adopt other draft) id := by
  apply of_undergoes
  intro busy
  by_cases same : other = id
  · subst other
    exact .adopt found (.asked (busy.holds found) yields)
  · rcases busy with ⟨present, isPresent, _⟩
    exact .adopt_of_ne same isPresent (.refl present)

end Attends

theorem Meanwhile.attends {visible : Event α → Prop}
    (step : Meanwhile visible id before after) : before.Attends after id := by
  cases step with
  | relabelled like =>
      refine .of_same [] like.history (by simp) fun solver found => ?_
      rw [like.solvers]
      exact found
  | recorded _ unnoted =>
      exact .of_same [_] rfl (by simpa using unnoted) fun _ found => found
  | founded =>
      exact .of_same [] rfl (by simp) fun _ found =>
        getElem?_addSolver_of_some found
  | defined => exact .of_same [] rfl (by simp) fun _ found => found
  | set => exact .setSettings
  | changed different =>
      exact .of_same [] rfl (by simp) fun _ found =>
        (getElem?_change_of_ne _ different).trans found
  | worked found yields => exact .worked found yields
  | resumed different =>
      apply Attends.of_undergoes
      rintro ⟨present, isPresent, _⟩
      exact .adopt_of_ne different isPresent (.refl present)

end World

/-- While hooks of a solver are called, it puts off what it is asked for,
whatever goes on. -/
theorem Activity.RunsWith.attends {known : Activity.Calls _}
    {activity : Activity α} {before after : World α} {result : Ending α}
    (runs : activity.RunsWith known before result after) (id : SolverId)
    (within : activity.Within (fun _ => True) id) :
    before.Attends after id := by
  intro busy
  have steps := runs.lasts (fun _ _ => trivial) within busy
  have attends : before.Attends after id := by
    clear runs
    induction steps with
    | refl => exact .refl before id
    | tail _ step induction => exact induction.trans step.attends
  exact attends busy

end Rounds

/-! ## From the first round to the end of an operation -/

/-- The activities of one solver that it may be at outside of its rounds. -/
def Activity.Own (id : SolverId) (before : World α) : Activity α → Prop
  | .announcement other _ =>
      other = id ∧ before.At id fun solver => solver.dispatching = false ∧
        solver.draining = false
  | .round other _ =>
      other = id ∧ before.At id fun solver => solver.dispatching = false
  | .settlement other =>
      other = id ∧ before.At id fun solver => solver.dispatching = false ∧
        solver.draining = false
  | .drain other _ =>
      other = id ∧ before.At id fun solver => solver.dispatching = false
  | _ => False

theorem Activity.Own.of_like {activity : Activity α} {before after : World α}
    {id : SolverId} (own : activity.Own id before) (like : before.Like after) :
    activity.Own id after := by
  cases activity with
  | announcement | round | settlement | drain =>
      exact own.imp_right fun one => one.of_like like
  | command | script | task | calls => exact own

section Idle

variable {world : World α} {id : SolverId} {solver : Solver α}

theorem World.idle_adopt {draft : Draft α}
    (found : world.solvers[id]? = some solver)
    (idle : draft.solver.dispatching = false) :
    (world.adopt id draft).At id fun solver => solver.dispatching = false :=
  .adopt found idle

end Idle

section Operations

variable [Scalar α] {before middle after : World α} {id : SolverId}
  {solver : Solver α} {targets : List VariableId} {result : Ending α}

open Solver (Attends KeepsOn Goes)

theorem World.Undergoes.phase {property : Solver α → Prop}
    (keepsOn : before.Undergoes after id KeepsOn) (one : before.At id property)
    (carried : ∀ former later, former.SamePhase later → property former →
      property later) :
    after.At id property := by
  rcases keepsOn with ⟨_, _, former, later, isFormer, isLater, kept⟩
  rcases one with ⟨same, isSame, holds⟩
  rw [isFormer] at isSame
  cases isSame
  exact ⟨later, isLater, carried _ _ kept.phase holds⟩

theorem World.undergoes_round {known : Activity.Calls α}
    {way : Solver α → List (Note α) → Solver α → Prop}
    {close : Solver α → Solver α} (found : before.solvers[id]? = some solver)
    (calls : Activity.RunsWith known (.calls id targets)
      ((before.record (.roundBegan id targets)).change id fun solver =>
        { solver with dispatching := true }) result after)
    (joined : ∀ notes later,
      { solver with dispatching := true }.Attends notes later →
      way solver notes (close later)) :
    before.Undergoes ((after.change id close).record (.roundEnded id)) id
      way := by
  have recorded :
    (before.record (.roundBegan id targets)).solvers[id]? = some solver := found
  have busy : ((before.record (.roundBegan id targets)).change id fun solver =>
      { solver with dispatching := true }).At id fun solver =>
        solver.dispatching = true :=
    ⟨_, World.getElem?_change_self _ recorded, rfl⟩
  have attended := (calls.attends id (fun _ _ => trivial) busy).1
  exact .recorded ⟨rfl, rfl⟩ (.around recorded attended joined)

/-- A round of which no hook fails. -/
theorem World.undergoes_held {known : Activity.Calls α}
    (one : before.At id fun solver => solver.dispatching = false)
    (calls : Activity.RunsWith known (.calls id targets)
      ((before.record (.roundBegan id targets)).change id fun solver =>
        { solver with dispatching := true }) result after) :
    before.Undergoes ((after.change id fun solver =>
      { solver with dispatching := false }).record (.roundEnded id)) id
        KeepsOn := by
  rcases one with ⟨solver, found, idle⟩
  refine World.undergoes_round found calls fun notes later attends => ?_
  have begins : solver.Turn [] { solver with dispatching := true } :=
    .marked solver.settings true solver.draining
  have ends : later.Turn [] { later with dispatching := false } :=
    .marked later.settings false later.draining
  have turns :=
    ((Solver.Turns.single begins).trans attends.turns).trans (.single ends)
  rw [List.nil_append, List.append_nil] at turns
  exact ⟨turns, idle.symm, attends.phase.draining⟩

/-- A round of which a hook fails. -/
theorem World.undergoes_broken {known : Activity.Calls α} {cause : Failure α}
    (one : before.At id fun solver => solver.dispatching = false)
    (calls : Activity.RunsWith known (.calls id targets)
      ((before.record (.roundBegan id targets)).change id fun solver =>
        { solver with dispatching := true }) (.error cause) after) :
    before.Undergoes ((after.change id fun solver =>
      { solver.dropDeferred with dispatching := false }).record
        (.roundEnded id)) id (Goes (.error cause)) := by
  rcases one with ⟨solver, found, _⟩
  refine World.undergoes_round found calls fun notes later attends => ?_
  have begins : solver.Turn [] { solver with dispatching := true } :=
    .marked solver.settings true solver.draining
  exact ⟨notes, later, [], later, (List.append_nil notes).symm,
    (Solver.Turns.single begins).trans attends.turns,
    .raised attends.phase.dispatching, rfl⟩

/-- Deferred work is taken up, and as long as that lasts the solver drains. -/
theorem World.undergoes_settlement {close : Solver α → Solver α}
    (one : before.At id fun solver =>
      solver.dispatching = false ∧ solver.draining = false)
    (drains : (before.change id fun solver =>
      { solver with draining := true }).Undergoes after id (Goes result))
    (closes : ∀ later : Solver α,
      (result = .ok () → close later = { later with draining := false }) ∧
        (close later).atRest = later.atRest) :
    before.Undergoes (after.change id close) id (Goes result) := by
  rcases one with ⟨solver, found, _, notDraining⟩
  refine .around found drains fun notes later goes => ?_
  have begins : solver.Turn [] { solver with draining := true } :=
    .marked solver.settings solver.dispatching true
  cases result with
  | ok _ =>
      have ends : later.Turn [] { later with draining := false } :=
        .marked later.settings later.dispatching false
      have turns :=
        ((Solver.Turns.single begins).trans goes.turns).trans (.single ends)
      rw [List.nil_append, List.append_nil] at turns
      rw [(closes later).1 rfl]
      exact ⟨turns, goes.phase.dispatching, notDraining.symm⟩
  | error cause =>
      rcases goes with
        ⟨earlier, last, final, broken, isNotes, turns, breaks, atRest⟩
      exact ⟨earlier, last, final, broken, isNotes,
        (Solver.Turns.single begins).trans turns, breaks,
        (closes later).2.trans atRest⟩

/-- What is over at once. -/
theorem Activity.Over.conducts {activity : Activity α}
    (isOver : activity.Over before result) (own : activity.Own id before) :
    before.Undergoes before id (Goes result) := by
  have nothing : ∀ {property : Solver α → Prop}, before.At id property →
      before.Undergoes before id KeepsOn := by
    rintro property ⟨solver, found, _⟩
    exact .of_unnoted [] rfl (by simp) found found (KeepsOn.refl solver)
  cases isOver with
  | refused | aside | finished | taskLost | callsDone | callLost => cases own
  | unmoved | roundSkipped | drained =>
      rcases own with ⟨rfl, one⟩
      exact nothing one
  | settlementLost lost | drainLost lost =>
      rcases own with ⟨rfl, solver, found, _⟩
      rw [lost] at found
      cases found
  | settlementLeft found draining =>
      rcases own with ⟨rfl, one⟩
      cases draining.symm.trans (one.holds found).2
  | drainExceeded found more limit =>
      rcases own with ⟨rfl, one⟩
      refine .of_unnoted [] rfl (by simp) found found ?_
      exact ⟨[], _, [], _, rfl, .refl,
        .exceeded (one.holds found) more rfl, rfl⟩

theorem World.undergoes_served {work : Edit α (List VariableId)}
    {moved : List VariableId} {draft : Draft α}
    (one : before.At id fun solver => solver.dispatching = false)
    (found : before.solvers[id]? = some solver)
    (next : solver.nextDeferred = some work)
    (yields : work.Yields ⟨solver, []⟩ (.ok moved) draft) :
    before.Undergoes (before.adopt id draft) id KeepsOn ∧
      (before.adopt id draft).At id fun solver =>
        solver.dispatching = false := by
  have idle := one.holds found
  have takes := Solver.takes_of_nextDeferred next yields
  exact ⟨.adopt found (Solver.KeepsOn.of_served idle next yields),
    World.idle_adopt found (takes.dispatching.trans idle)⟩

/-- What a solver does from the first round of an operation on: turn after turn,
to the end or until something fails. -/
theorem Activity.RunsWith.conducts {known : Activity.Calls α}
    {activity : Activity α}
    (runs : activity.RunsWith known before result after) :
    activity.Own id before → before.Undergoes after id (Goes result) := by
  induction runs with
  | relabelled ready _ done induction =>
      exact fun own => (induction (own.of_like ready)).of_like ready done
  | atOnce isOver => exact isOver.conducts
  | founded | changed | asked | defined | observed | batched | batchSolved
  | stopped | continued | taskFailed | taskDone | callSkipped | callFailed
  | called =>
      intro own
      cases own
  | unannounced _ _ round =>
      rintro ⟨rfl, one⟩
      exact round ⟨rfl, one.imp fun _ phase => phase.1⟩
  | announced _ _ _ round settled =>
      rintro ⟨rfl, one⟩
      have held := round ⟨rfl, one.imp fun _ phase => phase.1⟩
      have phase := World.Undergoes.phase held one fun _ _ same phase =>
        ⟨same.dispatching.trans phase.1, same.draining.trans phase.2⟩
      exact held.trans (settled ⟨rfl, phase⟩) fun _ _ _ _ _ => KeepsOn.goes
  | roundHeld _ calls =>
      rintro ⟨rfl, one⟩
      exact World.undergoes_held one calls
  | roundBroken _ calls =>
      rintro ⟨rfl, one⟩
      exact World.undergoes_broken one calls
  | settled _ _ _ drains =>
      rintro ⟨rfl, one⟩
      exact World.undergoes_settlement one
        (drains ⟨rfl, one.change fun _ phase => phase.1⟩)
        fun _ => ⟨fun _ => rfl, rfl⟩
  | unsettled _ _ _ drains =>
      rintro ⟨rfl, one⟩
      exact World.undergoes_settlement one
        (drains ⟨rfl, one.change fun _ phase => phase.1⟩)
        fun _ => ⟨(nomatch ·), rfl⟩
  | drainFailed found next _ yields =>
      rintro ⟨rfl, one⟩
      exact .adopt found ⟨[], _, _, _, rfl, .refl,
        .failed (one.holds found) next yields, rfl⟩
  | drainBroken found next _ yields _ round =>
      rintro ⟨rfl, one⟩
      rcases World.undergoes_served one found next yields with ⟨serves, idle⟩
      exact serves.trans (round ⟨rfl, idle⟩) fun _ _ _ _ _ => KeepsOn.goes
  | drainContinued found next _ yields _ _ round later =>
      rintro ⟨rfl, one⟩
      rcases World.undergoes_served one found next yields with ⟨serves, idle⟩
      have held := round ⟨rfl, idle⟩
      have idleAfter := World.Undergoes.phase held idle fun _ _ same idle =>
        same.dispatching.trans idle
      have served := serves.trans held fun _ _ _ _ _ => KeepsOn.trans
      exact served.trans (later ⟨rfl, idleAfter⟩) fun _ _ _ _ _ => KeepsOn.goes

end Operations

end LiveLinear
