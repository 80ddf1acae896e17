import LiveLinear.Proofs.Session.Consistency
import LiveLinear.Proofs.Session.Rearranging
import LiveLinear.Proofs.Solver.Retracting

namespace LiveLinear

/-! # Contradictions that are taken back

With exact arithmetic, tolerance zero and automatic solving, operations that
take themselves back when a solve is refused leave no contradiction behind,
whatever hooks do and whatever fails. Only a constraint that a hook adds is
stored before anybody has solved with it. -/

variable {α : Type}

/-! ## Revocable commands -/

def Operation.rewrites : Operation α → Bool
  | .setTerm .. | .addTerm .. | .removeTerm .. | .setSum .. => true
  | _ => false

mutual

/-- Whether a command, with the hooks that it registers, holds no batch, is
gentle and changes no constraint that is there already. -/
def Command.isRevocable : Command ℚ → Bool
  | .operation operation => operation.isGentle && !operation.rewrites
  | .batch _ _ => false
  | .defineHook _ body | .observeInline _ body _ => body.isRevocable
  | .observe .. => true

def Script.isRevocable : Script ℚ → Bool
  | .done => true
  | .next command _ rest => command.isRevocable && rest.isRevocable

end

/-- Whether a command adds a constraint. -/
def Command.adds : Command α → Bool
  | .operation (.addConstraint ..) | .operation (.build ..) => true
  | _ => false

theorem Command.Asks.adds_eq {command : Command α} {id : SolverId}
    {task : Task α} (asks : command.Asks id task) :
    command.adds = task.adds := by
  cases asks <;> rfl

theorem Command.Asks.isRevocable {command : Command ℚ} {id : SolverId}
    {task : Task ℚ} (asks : command.Asks id task)
    (revocable : command.isRevocable = true) :
    task.isRevocable = true := by
  cases asks <;> first | rfl | cases revocable

namespace Activity

def Revocable : Activity ℚ → Prop
  | .command _ given => given.isRevocable = true
  | .script _ body => body.isRevocable = true
  | .task _ work => work.isRevocable = true
  | .announcement _ _ | .round _ _ | .calls _ _ | .settlement _ | .drain _ _ =>
      True

def Adds (result : Ending α) : Activity α → Prop
  | .command _ given => given.adds = true ∧ result = .ok ()
  | .task _ work => work.adds = true ∧ result = .ok ()
  | .script _ _ | .announcement _ _ | .round _ _ | .calls _ _ | .settlement _
      | .drain _ _ => False

/-- The solver is not in a round already where a round of it may begin. -/
def Free (id : SolverId) (before : World α) : Activity α → Prop
  | .announcement other moved =>
      other = id → moved ≠ [] → before.At id fun solver =>
        solver.dispatching = false
  | .round other _ | .settlement other | .drain other _ =>
      other = id → before.At id fun solver => solver.dispatching = false
  | .command _ _ | .script _ _ | .task _ _ | .calls _ _ => True

theorem Free.of_like {activity : Activity α} {before after : World α}
    {id : SolverId} (free : activity.Free id before)
    (like : before.Like after) : activity.Free id after := by
  cases activity with
  | announcement => exact fun same some => (free same some).of_like like
  | round | settlement | drain => exact fun same => (free same).of_like like
  | command | script | task | calls => exact free

end Activity

/-! ## What is on record -/

namespace Event

/-- Whether a solution of the solver has been written. -/
def solved (id : SolverId) : Event α → Bool
  | .noted solver note => solver == id && note.isSolved
  | .commandEnded _ _ | .roundBegan _ _ | .hookCalled _ _ _ _
      | .hookReturned _ _ | .roundEnded _ => false

/-- Whether a hook has added a constraint. -/
def adds : Event α → Bool
  | .commandEnded command (.ok _) => command.adds
  | .commandEnded _ (.error _) | .noted _ _ | .roundBegan _ _
      | .hookCalled _ _ _ _ | .hookReturned _ _ | .roundEnded _ => false

end Event

namespace World

/-- No hook has added a constraint since the solver last wrote a solution. -/
def Resolved (world : World α) (id : SolverId) : Prop :=
  ∀ event ∈ world.history.takeWhile fun event => !event.solved id,
    event.adds = false

instance (world : World α) (id : SolverId) : Decidable (world.Resolved id) :=
  inferInstanceAs (Decidable (∀ event ∈ _, _))

theorem Resolved.earlier {before after : World α} {id : SolverId}
    (events : List (Event α)) (resolved : after.Resolved id)
    (history : after.history = events ++ before.history)
    (unsolved : ∀ event ∈ events, event.solved id = false) :
    before.Resolved id := by
  intro event member
  apply resolved
  have passed : ∀ event ∈ events, (!event.solved id) = true := by
    intro event member
    rw [unsolved event member]
    rfl
  rw [history, List.takeWhile_append_of_pos passed]
  exact List.mem_append_right events member

structure Strict (world : World ℚ) : Prop where
  solvers : world.Each fun _ solver => solver.Strict
  hooks : ∀ hook ∈ world.hooks, hook.body.isRevocable = true

def Sated (world : World ℚ) (id : SolverId) : Prop :=
  ∀ solver, world.solvers[id]? = some solver → solver.Satisfied

def Faithful (world : World ℚ) (id : SolverId) : Prop :=
  world.Resolved id → world.Sated id

/-- Between two worlds a solver stays in its phase and remains faithful, unless
`lapse` comes upon it in a round. -/
structure Upholds (lapse : Prop) (before after : World ℚ) (id : SolverId) :
    Prop where
  strict : after.Strict
  phase (busy : Bool) (one : before.At id fun solver =>
    solver.dispatching = busy) :
    after.At id fun solver => solver.dispatching = busy
  faithful (held : before.Faithful id)
    (checked : lapse → ¬before.At id fun solver => solver.dispatching = true) :
    after.Faithful id

variable {world before middle after start final : World ℚ} {id other : SolverId}
  {lapse first second : Prop}

namespace Strict

theorem of_like (strict : before.Strict) (like : before.Like after) :
    after.Strict := by
  refine ⟨World.Each.of_like strict.solvers like, ?_⟩
  rw [like.hooks]
  exact strict.hooks

theorem record {event : Event ℚ} (strict : world.Strict) :
    (world.record event).Strict :=
  ⟨strict.solvers, strict.hooks⟩

theorem change {change : Solver ℚ → Solver ℚ} (strict : world.Strict)
    (changed : ∀ solver : Solver ℚ, solver.Strict → (change solver).Strict) :
    (world.change other change).Strict :=
  ⟨World.Each.change strict.solvers (fun _ _ _ holds => holds)
    fun solver _ holds => changed solver holds, strict.hooks⟩

theorem adopt {solver : Solver ℚ} {draft : Draft ℚ} (strict : world.Strict)
    (found : world.solvers[other]? = some solver)
    (drafted : draft.solver.Strict) :
    (world.adopt other draft).Strict :=
  ⟨World.Each.adopt strict.solvers found (fun _ _ _ holds => holds) fun _ =>
    drafted, strict.hooks⟩

theorem addHook (strict : world.Strict) {label : String} {body : Script ℚ}
    (revocable : body.isRevocable = true) :
    (world.addHook label body).Strict := by
  refine ⟨strict.solvers, fun hook member => ?_⟩
  rcases List.mem_append.mp member with old | new
  · exact strict.hooks hook old
  · rw [List.mem_singleton.mp new]
    exact revocable

end Strict

theorem Sated.change {change : Solver ℚ → Solver ℚ} (sated : world.Sated id)
    (satisfied : ∀ solver : Solver ℚ, solver.Satisfied →
      (change solver).Satisfied) :
    (world.change other change).Sated id := by
  intro later found
  rw [getElem?_change, Option.map_eq_some_iff] at found
  rcases found with ⟨solver, isThere, rfl⟩
  split
  · exact satisfied solver (sated solver isThere)
  · exact sated solver isThere

theorem Sated.of_like (sated : before.Sated id) (like : before.Like after) :
    after.Sated id := by
  intro solver found
  rw [like.solvers] at found
  exact sated solver found

theorem Faithful.carry (events : List (Event ℚ)) (held : before.Faithful id)
    (history : after.history = events ++ before.history)
    (unsolved : ∀ event ∈ events, event.solved id = false)
    (carried : before.Sated id → after.Sated id) : after.Faithful id :=
  fun resolved => carried (held (resolved.earlier events history unsolved))

theorem Faithful.of_same (held : before.Faithful id)
    (history : after.history = before.history)
    (carried : before.Sated id → after.Sated id) : after.Faithful id :=
  held.carry [] history (by simp) carried

namespace Upholds

theorem imp (upholds : before.Upholds first after id)
    (implies : first → (before.At id fun solver => solver.dispatching = true) →
      second) :
    before.Upholds second after id :=
  ⟨upholds.strict, upholds.phase, fun held checked =>
    upholds.faithful held fun lapsed busy => checked (implies lapsed busy) busy⟩

theorem trans (left : before.Upholds lapse middle id)
    (right : middle.Upholds False after id) :
    before.Upholds lapse after id :=
  ⟨right.strict, fun busy one => right.phase busy (left.phase busy one),
    fun held checked => right.faithful (left.faithful held checked) False.elim⟩

theorem of_like (upholds : start.Upholds lapse final id)
    (ready : before.Like start) (done : final.Like after) :
    before.Upholds lapse after id := by
  refine ⟨upholds.strict.of_like done,
    fun busy one => (upholds.phase busy (one.of_like ready)).of_like done, ?_⟩
  intro held checked
  have began : start.Faithful id := held.of_same ready.history fun sated =>
    sated.of_like ready
  have upheld := upholds.faithful began fun lapsed one =>
    checked lapsed (one.of_like ready.symm)
  exact upheld.of_same done.history fun sated => sated.of_like done

theorem of_same (events : List (Event ℚ))
    (history : after.history = events ++ before.history)
    (unsolved : ∀ event ∈ events, event.solved id = false)
    (same : after.solvers[id]? = before.solvers[id]?) (strict : after.Strict) :
    before.Upholds lapse after id := by
  refine ⟨strict, fun busy one => ?_, fun held _ => ?_⟩
  · rcases one with ⟨solver, found, holds⟩
    exact ⟨solver, same.trans found, holds⟩
  · refine held.carry events history unsolved fun sated solver found => ?_
    exact sated solver (same.symm.trans found)

theorem refl (strict : world.Strict) : world.Upholds lapse world id :=
  of_same [] rfl (by simp) rfl strict

theorem record {event : Event ℚ} (strict : world.Strict)
    (unsolved : event.solved id = false) :
    world.Upholds lapse (world.record event) id :=
  of_same [event] rfl (by simpa using unsolved) rfl strict.record

theorem addHook {label : String} {body : Script ℚ} (strict : world.Strict)
    (revocable : body.isRevocable = true) :
    world.Upholds lapse (world.addHook label body) id :=
  of_same [] rfl (by simp) rfl (strict.addHook revocable)

theorem addSolver {settings : Settings ℚ} (strict : world.Strict)
    (exactly : settings.Exact) (auto : settings.autoSolve = true) :
    world.Upholds lapse (world.addSolver settings) id := by
  refine ⟨⟨World.Each.addSolver strict.solvers fun id =>
    Solver.strict_empty id exactly auto, strict.hooks⟩, fun busy one =>
      ?_, fun held _ => ?_⟩
  · rcases one with ⟨solver, found, holds⟩
    exact ⟨solver, getElem?_addSolver_of_some found, holds⟩
  · refine held.of_same rfl fun sated solver found => ?_
    rcases getElem?_addSolver_cases found with old | rfl
    · exact sated solver old
    · exact Solver.satisfied_empty id settings

theorem mark {change : Solver ℚ → Solver ℚ} (strict : world.Strict)
    (strictly : ∀ solver : Solver ℚ, solver.Strict → (change solver).Strict)
    (satisfied : ∀ solver : Solver ℚ, solver.Satisfied →
      (change solver).Satisfied)
    (phase : ∀ solver : Solver ℚ,
      (change solver).dispatching = solver.dispatching) :
    world.Upholds lapse (world.change other change) id := by
  refine ⟨strict.change strictly, fun busy one => ?_,
    fun held _ => held.of_same rfl fun sated => sated.change satisfied⟩
  by_cases same : other = id
  · subst other
    exact one.change fun solver isBusy => (phase solver).trans isBusy
  · rcases one with ⟨solver, found, isBusy⟩
    exact ⟨solver, (getElem?_change_of_ne change same).trans found, isBusy⟩

/-- An edit of some solver is carried out. -/
theorem adopt {solver : Solver ℚ} {draft : Draft ℚ} (strict : world.Strict)
    (found : world.solvers[other]? = some solver)
    (phase : draft.solver.dispatching = solver.dispatching)
    (drafted : draft.solver.Strict)
    (upheld : other = id → (lapse → ¬solver.dispatching = true) →
      Draft.Upholds ⟨solver, []⟩ draft) :
    world.Upholds lapse (world.adopt other draft) id := by
  by_cases same : other = id
  · subst other
    have adopted := getElem?_adopt_self draft found
    refine ⟨strict.adopt found drafted, fun busy one =>
      ?_, fun held checked resolved => ?_⟩
    · rcases one with ⟨present, isPresent, isBusy⟩
      cases found.symm.trans isPresent
      exact ⟨draft.solver, adopted, phase.trans isBusy⟩
    · have isChecked := fun lapsed busy => checked lapsed ⟨solver, found, busy⟩
      rcases upheld rfl isChecked (strict.solvers _ solver found) with
        ⟨_, notes, isNotes, satisfied⟩
      rw [List.append_nil] at isNotes
      intro later isLater
      cases adopted.symm.trans isLater
      apply satisfied
      -- Either a solution is among the notes, or nothing is resolved that was
      -- not before.
      by_cases solved : notes.any Note.isSolved = true
      · exact .inl solved
      · refine .inr (held (resolved.earlier _ rfl ?_) solver found)
        intro event member
        rcases List.mem_map.mp member with ⟨note, isNote, rfl⟩
        have unsolved : note.isSolved = false := by
          rw [isNotes] at isNote
          exact Bool.eq_false_iff.mpr fun isSolved =>
            solved (List.any_eq_true.mpr ⟨note, isNote, isSolved⟩)
        simp [Event.solved, unsolved]
  · refine of_same (draft.notes.map (.noted other)) rfl ?_
      (getElem?_adopt_of_ne draft same) (strict.adopt found drafted)
    intro event member
    rcases List.mem_map.mp member with ⟨note, _, rfl⟩
    simp [Event.solved, same]

/-- A round of hooks of some solver, which is not in one already. -/
theorem round {targets : List VariableId} {close : Solver ℚ → Solver ℚ}
    (idle : other = id → before.At id fun solver => solver.dispatching = false)
    (strictly : ∀ solver : Solver ℚ, solver.Strict → (close solver).Strict)
    (satisfied : ∀ solver : Solver ℚ, solver.Satisfied →
      (close solver).Satisfied)
    (closes : ∀ solver, (close solver).dispatching = false)
    (calls : Upholds False
      ((before.record (.roundBegan other targets)).change other
        fun solver => { solver with dispatching := true })
      after id) :
    before.Upholds lapse ((after.change other close).record (.roundEnded other))
      id := by
  have closed : (after.change other close).Strict :=
    calls.strict.change strictly
  refine ⟨closed.record, fun busy one => ?_, fun held _ => ?_⟩
  · by_cases same : other = id
    · subst other
      -- The hooks keep the mark of the round, and its end removes it.
      rcases (idle rfl).and one with ⟨solver, found, isIdle, isBusy⟩
      have recorded : (before.record (.roundBegan id targets)).solvers[id]? =
        some solver := found
      have ended : after.At id fun solver => solver.dispatching = true :=
        calls.phase true ⟨_, getElem?_change_self _ recorded, rfl⟩
      exact ended.change fun solver _ =>
        (closes solver).trans (isIdle.symm.trans isBusy)
    · have recorded : (before.record (.roundBegan other targets)).At id
          fun solver => solver.dispatching = busy := one
      rcases recorded with ⟨solver, found, isBusy⟩
      have began := (getElem?_change_of_ne
        (fun solver : Solver ℚ => { solver with dispatching := true })
        same).trans found
      rcases calls.phase busy ⟨solver, began, isBusy⟩ with
        ⟨later, isLater, stillBusy⟩
      exact ⟨later, (getElem?_change_of_ne close same).trans isLater, stillBusy⟩
  · have began : Faithful
        ((before.record (.roundBegan other targets)).change other
          fun solver => { solver with dispatching := true }) id := by
      refine held.carry [.roundBegan other targets] rfl (by simp [Event.solved])
        fun sated => ?_
      have recorded :
        (before.record (.roundBegan other targets)).Sated id := sated
      exact recorded.change fun _ satisfied => satisfied
    refine (calls.faithful began False.elim).carry [.roundEnded other] rfl
      (by simp [Event.solved]) fun sated => ?_
    exact sated.change satisfied

theorem ended {command : Command ℚ} {outcome : Except (Failure ℚ) (Reply ℚ)}
    (upholds : before.Upholds (command.adds = true ∧ ending outcome = .ok ())
      after id) :
    before.Upholds lapse (after.record (.commandEnded command outcome)) id := by
  refine ⟨upholds.strict.record, upholds.phase, ?_⟩
  intro held _ resolved
  have unadded :=
    resolved (.commandEnded command outcome)
      (by simp [World.record, Event.solved])
  refine upholds.faithful held ?_
    (resolved.earlier [_] rfl (by simp [Event.solved]))
  rintro ⟨adds, isOk⟩
  cases outcome with
  | ok reply => cases adds.symm.trans unadded
  | error failure => cases isOk

theorem worked {task : Task ℚ} {solver : Solver ℚ} {draft : Draft ℚ}
    {result : Except (Failure ℚ) (List VariableId)} (strict : world.Strict)
    (revocable : task.isRevocable = true)
    (found : world.solvers[other]? = some solver)
    (yields : task.edit.Yields ⟨solver, []⟩ result draft) :
    world.Upholds (other = id ∧ task.adds = true ∧ ∃ moved, result = .ok moved)
      (world.adopt other draft) id := by
  refine adopt strict found (Task.edit_steady _ _ _ _ yields).dispatching ?_
    fun same checked => ?_
  · exact Edit.strict_of_steady (Task.edit_coheres task)
      (Task.edit_steady task) yields (strict.solvers other solver found)
  · exact Task.upholds revocable
      (fun adds busy moved isOk =>
        checked ⟨same, adds, moved, isOk⟩ busy) yields

theorem served {work : Edit ℚ (List VariableId)} {solver : Solver ℚ}
    {draft : Draft ℚ} {result : Except (Failure ℚ) (List VariableId)}
    (strict : world.Strict)
    (idle : other = id → world.At id fun solver => solver.dispatching = false)
    (found : world.solvers[other]? = some solver)
    (next : solver.nextDeferred = some work)
    (yields : work.Yields ⟨solver, []⟩ result draft) :
    world.Upholds lapse (world.adopt other draft) id := by
  have takes := Solver.takes_of_nextDeferred next yields
  have isStrict := strict.solvers other solver found
  refine adopt strict found takes.dispatching ?_ fun same _ => ?_
  · exact isStrict.of_settings
      (Solver.coherent_of_nextDeferred isStrict.coherent next yields)
      takes.settings
  · subst other
    rcases idle rfl with ⟨present, isPresent, isIdle⟩
    cases found.symm.trans isPresent
    exact Solver.upholds_of_nextDeferred isIdle next yields

/-- An item of deferred work is carried out, and then the round that follows
it. -/
theorem item {work : Edit ℚ (List VariableId)} {solver : Solver ℚ}
    {draft : Draft ℚ} {result : Except (Failure ℚ) (List VariableId)}
    (strict : world.Strict)
    (idle : other = id → world.At id fun solver => solver.dispatching = false)
    (found : world.solvers[other]? = some solver)
    (next : solver.nextDeferred = some work)
    (yields : work.Yields ⟨solver, []⟩ result draft)
    (round : (other = id → (world.adopt other draft).At id fun solver =>
        solver.dispatching = false) →
      (world.adopt other draft).Strict →
      (world.adopt other draft).Upholds False after id) :
    world.Upholds lapse after id := by
  have serves : world.Upholds lapse (world.adopt other draft) id :=
    .served strict idle found next yields
  exact serves.trans
    (round (fun same => serves.phase false (idle same)) serves.strict)

theorem settlement {close : Solver ℚ → Solver ℚ} (strict : before.Strict)
    (strictly : ∀ solver : Solver ℚ, solver.Strict → (close solver).Strict)
    (satisfied : ∀ solver : Solver ℚ, solver.Satisfied →
      (close solver).Satisfied)
    (phase : ∀ solver : Solver ℚ,
      (close solver).dispatching = solver.dispatching)
    (drains : Upholds False
      (before.change other fun solver => { solver with draining := true })
      after id) :
    before.Upholds lapse (after.change other close) id := by
  have begins : before.Upholds lapse
      (before.change other fun solver => { solver with draining := true }) id :=
    mark strict (fun _ holds => holds.mark) (fun _ satisfied => satisfied)
      fun _ => rfl
  exact (begins.trans drains).trans
    (mark drains.strict strictly satisfied phase)

end Upholds

end World

/-! ## Activities -/

theorem Activity.RunsWith.ok_of_unmoved {known : Activity.Calls _}
    {before after : World α} [Scalar α] {result : Ending α} {id : SolverId}
    {moved : List VariableId} (nothing : moved = [])
    (runs : RunsWith known (.announcement id moved) before result after) :
    result = .ok () := by
  generalize isActivity : Activity.announcement id moved = activity at runs
  induction runs with
  | relabelled _ _ _ induction => exact induction isActivity
  | atOnce isOver =>
      cases isActivity
      cases isOver
      rfl
  | unannounced some _ _ | announced some _ _ _ _ =>
      cases isActivity
      exact absurd nothing some
  | _ => cases isActivity

/-- Whatever is done that is revocable, and however it ends, every solver stays
faithful. -/
theorem Activity.RunsWith.upholds {known : Activity.Calls _}
    {activity : Activity ℚ} {before after : World ℚ} {result : Ending ℚ}
    (runs : activity.RunsWith known before result after) (id : SolverId) :
    activity.Revocable → activity.Free id before → before.Strict →
      before.Upholds (activity.Adds result) after id := by
  induction runs with
  | relabelled ready _ done induction =>
      intro revocable free strict
      exact (induction revocable (free.of_like ready)
        (strict.of_like ready)).of_like ready done
  | atOnce =>
      exact fun _ _ strict => .refl strict
  | founded founds =>
      intro revocable _ strict
      have gentle := (Bool.and_eq_true_iff.mp revocable).1
      rcases founds.settings_of_isGentle gentle with ⟨exactly, auto⟩
      exact .addSolver strict exactly auto
  | changed | batched | batchSolved =>
      intro impossible
      cases impossible
  | asked asks _ induction =>
      intro revocable _ strict
      exact (induction (asks.isRevocable revocable) trivial strict).imp
        fun lapsed _ => ⟨asks.adds_eq.trans lapsed.1, lapsed.2⟩
  | defined =>
      intro revocable _ strict
      exact .addHook strict revocable
  | observed _ induction =>
      intro revocable _ strict
      refine .trans (.addHook strict revocable)
        ((induction rfl trivial (strict.addHook revocable)).imp
          fun lapsed _ => ?_)
      exact Bool.false_ne_true lapsed.1
  | stopped _ _ induction =>
      intro revocable _ strict
      exact .ended
        (induction (Bool.and_eq_true_iff.mp revocable).1 trivial strict)
  | continued _ _ _ first later =>
      intro revocable _ strict
      rcases Bool.and_eq_true_iff.mp revocable with
        ⟨revocableFirst, revocableRest⟩
      have ran := first revocableFirst trivial strict
      exact .trans (.ended ran) (later revocableRest trivial ran.strict.record)
  | taskFailed found yields =>
      intro revocable _ strict
      refine (World.Upholds.worked strict revocable found yields).imp
        fun lapsed _ => ?_
      rcases lapsed with ⟨_, _, moved, impossible⟩
      cases impossible
  | @taskDone solver moved _ _ world draft other task found yields announced
      induction =>
      intro revocable _ strict
      have adopted : world.Upholds _ (world.adopt other draft) id :=
        .worked strict revocable found yields
      have rest := induction trivial
        (fun same some => same ▸ World.idle_of_moved found yields some)
        adopted.strict
      -- In a round nothing is announced, so a task that has added a constraint
      -- has ended well.
      refine (adopted.trans rest).imp ?_
      rintro ⟨rfl, adds, _⟩ busy
      refine ⟨adds, announced.ok_of_unmoved ?_⟩
      by_contra some
      cases (busy.holds found).symm.trans (Task.idle_of_moved yields some)
  | unannounced some _ round =>
      intro _ free strict
      exact round trivial (fun same => free same some) strict
  | announced some _ _ round settled =>
      intro _ free strict
      have held := round trivial (fun same => free same some) strict
      exact held.trans
        (settled trivial (fun same => held.phase false (free same some))
          held.strict)
  | roundHeld _ _ calls | roundBroken _ _ calls =>
      intro _ free strict
      exact .round free (fun _ holds => holds.mark)
        (fun _ satisfied => satisfied) (fun _ => rfl)
        (calls trivial trivial (strict.record.change fun _ holds => holds.mark))
  | callSkipped _ _ _ later => exact later
  | callFailed _ listens _ _ call =>
      intro _ _ strict
      have revocable := strict.hooks _ (World.mem_hooks_of_listener listens)
      exact .trans (.record strict rfl) (call revocable trivial strict.record)
  | called _ listens _ _ _ call later =>
      intro _ _ strict
      have revocable := strict.hooks _ (World.mem_hooks_of_listener listens)
      have ran := call revocable trivial strict.record
      have returned := later trivial trivial ran.strict.record
      exact .trans (.record strict rfl)
        (.trans ran (.trans (.record ran.strict rfl) returned))
  | settled found _ _ drains | unsettled found _ _ drains =>
      intro _ free strict
      refine .settlement strict (fun _ holds => holds.mark)
        (fun _ satisfied => satisfied) (fun _ => rfl)
        (drains trivial (fun same => ?_) (strict.change fun _ holds =>
          holds.mark))
      subst same
      exact (free rfl).change fun _ idle => idle
  | drainFailed found next _ yields =>
      exact fun _ free strict => .served strict free found next yields
  | drainBroken found next _ yields _ round =>
      exact fun _ free strict =>
        .item strict free found next yields (round trivial)
  | drainContinued found next _ yields _ _ round later =>
      intro _ free strict
      have held : World.Upholds False _ _ id :=
        .item strict free found next yields (round trivial)
      exact held.trans
        (later trivial (fun same => held.phase false (free same)) held.strict)

/-! ## Sessions -/

namespace Session

structure Upheld (world : World ℚ) : Prop where
  quiet : world.Quiet
  strict : world.Strict
  faithful (id : SolverId) : world.Faithful id

variable {engine : Engine ℚ} {world : World ℚ} {command : Command ℚ}
  {done : Step ℚ}

theorem upheld_empty : Upheld .empty := by
  refine ⟨World.quiet_empty, ⟨?_, ?_⟩, ?_⟩
  · intro id solver found
    cases found
  · intro hook member
    cases member
  · intro id resolved solver found
    cases found

theorem step_upheld (sound : engine.Sound)
    (revocable : command.isRevocable = true) (upheld : Upheld world)
    (stepped : step engine world command = some done) :
    Upheld done.world := by
  have upholds := fun id =>
    (step_runs sound stepped).1.upholds id revocable trivial upheld.strict
  refine ⟨step_quiet sound upheld.quiet stepped, (upholds 0).strict,
    fun id => ?_⟩
  refine (upholds id).faithful (upheld.faithful id) ?_
  rintro - ⟨solver, found, busy⟩
  cases busy.symm.trans (upheld.quiet id solver found).dispatching

theorem play_upheld (patience depth : Nat) (commands : List (Command ℚ))
    (revocable : ∀ command ∈ commands, command.isRevocable = true) :
    ∀ done ∈ play (.ofDepth patience depth) .empty commands,
      Upheld done.world := by
  have sound : (Engine.ofDepth patience depth : Engine ℚ).Sound :=
    Engine.ofDepth_sound patience depth
  exact play_keeps commands (fun _ command _ isCommand upheld stepped =>
    step_upheld sound (revocable command isCommand) upheld stepped) .empty
      upheld_empty

theorem exists_answer {id : SolverId} {solver : Solver ℚ}
    (found : world.solvers[id]? = some solver) (strict : solver.Strict) :
    ∃ isOver, Answers world id .isOverConstrained (.truth isOver) ∧
      (isOver = false ↔ solver.Solvable) := by
  rcases Solver.exists_assemble strict.exactly.tolerance with
    ⟨tableau, assembled, isZero⟩
  exact ⟨_, answers_isOverConstrained found assembled,
    strict.coherent.isOverConstrained_eq_false_iff assembled isZero⟩

/-- However revocable commands end, no solver is over-constrained after any of
them, unless a hook has added a constraint and no solution has been written
since. -/
theorem play_resolved (patience depth : Nat) (commands : List (Command ℚ))
    (revocable : ∀ command ∈ commands, command.isRevocable = true) :
    ∀ done ∈ play (.ofDepth patience depth) .empty commands,
      ∀ id < done.world.solvers.length, done.world.Resolved id →
        Answers done.world id .isOverConstrained (.truth false) := by
  intro done member id below resolved
  have upheld := play_upheld patience depth commands revocable done member
  have found := List.getElem?_eq_getElem below
  rcases exists_answer found (upheld.strict.solvers id _ found) with
    ⟨isOver, answers, solvable⟩
  have satisfied := upheld.faithful id resolved _ found
  rw [solvable.mpr satisfied.solvable] at answers
  exact answers

/-- A hook adds a constraint, which the solve that it has put off goes by. Then
a constraint that contradicts it is refused. -/
def retractingCommands : List (Command ℚ) :=
  [.operation (.newSolver "s" true true (.literal (some 0)) 10),
    .operation (.addVariable "s" "x" none (.literal (some 0))),
    .operation (.addVariable "s" "y" none (.literal (some 0))),
    .observeInline "x"
      (.ofList
        [(.operation (.addConstraint "s" none
          [(.label "y", .literal (some 1))] (.literal (some 5))), false)])
      none,
    .operation (.setValue "x" (.literal (some 1)) .chained),
    .operation (.addConstraint "s" none [(.label "y", .literal (some 1))]
      (.literal (some 6)))]

theorem play_resolved_retractingCommands :
    (∀ command ∈ retractingCommands, command.isRevocable = true) ∧
      ∃ done ∈ play (.ofDepth 9 3) .empty retractingCommands,
        done.outcome.isOk = false ∧
        (∃ event ∈ done.world.history, event.adds = true) ∧
        0 < done.world.solvers.length ∧ done.world.Resolved 0 ∧
        Answers done.world 0 .isOverConstrained (.truth false) := by
  have revocable : ∀ command ∈ retractingCommands,
      command.isRevocable = true := by
    decide +kernel
  have facts : ∃ done ∈ play (.ofDepth 9 3) .empty retractingCommands,
      done.outcome.isOk = false ∧
      (∃ event ∈ done.world.history, event.adds = true) ∧
        0 < done.world.solvers.length ∧ done.world.Resolved 0 := by
    decide +kernel
  rcases facts with ⟨done, member, failed, adds, isThere, resolved⟩
  exact ⟨revocable, done, member, failed, adds, isThere, resolved,
    play_resolved 9 3 _ revocable done member 0 isThere resolved⟩

/-- A hook adds a constraint that contradicts another one. -/
def clashingCommands : List (Command ℚ) :=
  [.operation (.newSolver "s" true true (.literal (some 0)) 10),
    .operation (.addVariable "s" "x" none (.literal (some 0))),
    .operation (.addVariable "s" "y" none (.literal (some 0))),
    .operation (.addConstraint "s" none [(.label "y", .literal (some 1))]
      (.literal (some 3))),
    .observeInline "x"
      (.ofList
        [(.operation (.addConstraint "s" none
          [(.label "y", .literal (some 1))] (.literal (some 4))), false)])
      none,
    .operation (.setValue "x" (.literal (some 1)) .chained)]

/-- The solve that a hook has put off is refused, and what the hook has added is
left. -/
theorem exists_contradiction_left :
    (∀ command ∈ clashingCommands, command.isRevocable = true) ∧
      ∃ done ∈ play (.ofDepth 9 3) .empty clashingCommands,
        done.outcome.isOk = false ∧
        Answers done.world 0 .isOverConstrained (.truth true) := by
  have revocable : ∀ command ∈ clashingCommands,
    command.isRevocable = true := by decide +kernel
  have facts : ∃ done ∈ play (.ofDepth 9 3) .empty clashingCommands,
      done.outcome.isOk = false ∧ done.world.solvers[0]?.isSome = true ∧
        ∀ solver ∈ done.world.solvers[0]?, ∃ first ∈ solver.constraints.values,
          ∃ second ∈ solver.constraints.values,
            first.terms.entries = second.terms.entries ∧
            first.sum ≠ second.sum := by
    decide +kernel
  rcases facts with ⟨done, member, failed, isThere, clash⟩
  rcases Option.isSome_iff_exists.mp isThere with ⟨solver, found⟩
  have strict :=
    (play_upheld 9 3 _ revocable done member).strict.solvers 0 solver found
  rcases exists_answer found strict with ⟨isOver, answers, solvable⟩
  have isTrue : isOver = true := by
    rw [← Bool.not_eq_false, solvable]
    rintro ⟨values, holds⟩
    rcases clash solver found with
      ⟨first, isFirst, second, isSecond, entries, sums⟩
    have held := holds first isFirst
    rw [Constraint.HoldsAt, entries] at held
    exact sums (held.symm.trans (holds second isSecond))
  rw [isTrue] at answers
  exact ⟨revocable, done, member, failed, answers⟩

end Session

end LiveLinear
