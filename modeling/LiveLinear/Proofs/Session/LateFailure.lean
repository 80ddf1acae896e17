import LiveLinear.Proofs.Session.Milestones

namespace LiveLinear

/-! # Late failures

An operation outside of hooks that fails after its own edit has succeeded keeps
that edit and all the work that has been done since, and drops the work that is
left. -/

variable {α : Type}

theorem Solver.Quiet.atRest {later : Solver α} (quiet : later.Quiet) :
    later.atRest = later := by
  rcases quiet with ⟨dispatching, draining, notPending, empty⟩
  cases later
  cases dispatching
  cases draining
  cases notPending
  cases empty
  rfl

variable [Scalar α]

namespace Solver

variable {last broken : Solver α} {final : List (Note α)} {cause : Failure α}

/-- An item of work queues nothing, and takes up the first value of the queue if
there is one. -/
theorem taken_of_nextDeferred {solver : Solver α}
    {work : Edit α (List VariableId)} {draft : Draft α}
    {result : Except (Failure α) (List VariableId)}
    (idle : solver.dispatching = false) (next : solver.nextDeferred = some work)
    (yields : work.Yields ⟨solver, []⟩ result draft) :
    draft.notes.reverse.filterMap Note.queued? = [] ∧
      ∃ rest,
        solver.deferred = draft.notes.reverse.filterMap Note.taken? ++
          rest := by
  have silent : ∀ {notes : List (Note α)},
      (∀ note ∈ notes, note.concernsWork = false) →
      notes.reverse.filterMap Note.queued? = [] ∧
      notes.reverse.filterMap Note.taken? = [] := by
    intro notes unconcerned
    constructor
    · exact List.filterMap_eq_nil_iff.mpr fun note member =>
        (Note.of_unconcerned (unconcerned note (List.mem_reverse.mp member))).1
    · exact List.filterMap_eq_nil_iff.mpr fun note member =>
        (Note.of_unconcerned
          (unconcerned note (List.mem_reverse.mp member))).2.1
  rcases nextDeferred_cases next with ⟨target, value, rest, queue, rfl⟩
    | ⟨queue, _, rfl⟩
  · rcases Edit.applyValue_minds target value _ _ _ yields idle with
      ⟨_, _, notes, isNotes, others⟩
    rcases silent others with ⟨nothingQueued, nothingTaken⟩
    rw [isNotes, List.reverse_append, List.filterMap_append,
      List.filterMap_append, nothingQueued, nothingTaken, queue]
    exact ⟨rfl, rest, rfl⟩
  · rcases Edit.writeSolution_minds _ _ _ yields idle with
      ⟨_, _, notes, isNotes, others⟩
    rcases silent others with ⟨nothingQueued, nothingTaken⟩
    rw [isNotes, List.reverse_append, List.filterMap_append,
      List.filterMap_append, nothingQueued, nothingTaken, queue]
    exact ⟨rfl, [], rfl⟩

theorem Breaks.exists_rest (breaks : last.Breaks cause final broken) :
    ∃ rest, last.deferred ++ final.filterMap Note.queued? =
      final.filterMap Note.taken? ++ rest := by
  cases breaks with
  | raised _ | exceeded _ _ _ => exact ⟨last.deferred, List.append_nil _⟩
  | failed idle next yields =>
      rcases taken_of_nextDeferred idle next yields with ⟨nothing, rest, queue⟩
      rw [nothing, List.append_nil]
      exact ⟨rest, queue⟩

end Solver

namespace Session

variable {engine : Engine α} {before after : World α} {id : SolverId}
  {task : Task α} {solver : Solver α} {draft : Draft α}
  {moved : List VariableId} {cause : Failure α}

namespace Milestone

/-- What is left of an operation that has stopped at `final`: from each of its
milestones, whatever nobody asked to change. -/
structure Keeps (engine : Engine α) (id : SolverId) (own final : Milestone α)
    (later : Solver α) : Prop where
  contents (milestone : Milestone α) (before : own.Leads engine id milestone)
    (since : milestone.Leads engine id final)
    (property : Table VariableId (Variable α) →
      Table ConstraintId (Constraint α) → Prop)
    (respects : milestone.Respects engine id property)
    (holds : milestone.world.Contents id property) :
    property later.unknowns later.constraints
  /-- A constraint that has been stated stays as it is, but for commands of
  hooks. -/
  stated (milestone : Milestone α) (before : own.Leads engine id milestone)
    (since : milestone.Leads engine id final) (held : ConstraintId)
    (constraint : Constraint α) (stated : constraint.origin = .stated)
    (spares : milestone.Spares engine id (Stating held constraint))
    (holds : milestone.world.Contents id (Stating held constraint)) :
    later.constraints.get? held = some constraint
  /-- What is locked stays locked, and what is not stays so, but for commands of
  hooks. -/
  locked (milestone : Milestone α) (before : own.Leads engine id milestone)
    (since : milestone.Leads engine id final) (target : VariableId)
    (locked : Bool)
    (spares : milestone.Spares engine id (Locking target locked))
    (holds : milestone.world.Contents id (Locking target locked)) :
    (later.lockOf target).isSome = locked
  /-- The values are those that have been written last. -/
  values (written : Solver α)
    (found : final.world.solvers[id]? = some written) (target : VariableId)
    (value : α) (present : later.value? target = some value) :
    written.value? target = some value ∨ written.nextVariable ≤ target
  /-- What has been refused has done nothing since it was taken up. -/
  intact (world : World α) (solver : Solver α)
    (told : final.Told engine id world solver) :
    later.unknowns = solver.unknowns ∧ later.constraints = solver.constraints

/-- How an operation fails late: `own` is its own edit, `final` what has been
written last, `broken` what the failing part has left, and `later` is the solver
afterwards. -/
structure FailsLate (engine : Engine α) (id : SolverId) (own : Milestone α)
    (cause : Failure α) (notes : List (Note α)) (after : World α)
    (final : Milestone α) (broken : World α) (later : Solver α) : Prop where
  leads : own.Leads engine id final
  broke : final.Stops engine id cause broken ∨
    final.Fails engine id cause broken
  left : (broken.change id Solver.atRest).Like after
  found : after.solvers[id]? = some later
  kept (stops : final.Stops engine id cause broken) :
    own.Keeps engine id final later
  /-- Whatever fails, it locks and unlocks nothing. -/
  locks (world : World α) (solver : Solver α)
    (told : final.Told engine id world solver) : solver.KeepsLocks later
  /-- Every constraint made to hold a variable belongs to a locked variable. -/
  pinned : later.Represented
  /-- Values that have not been taken up by now are not taken up. -/
  dropped : ∃ rest,
    notes.filterMap Note.queued? = notes.filterMap Note.taken? ++ rest
  quiet : later.Quiet

section Items

variable {milestone : Milestone α} {world last : World α}
  {work : Edit α (List VariableId)}
  (attempts : milestone.Attempts engine id world solver work)

include attempts

/-- An item fails with its edit, or else in the round that follows it. -/
theorem Attempts.exists_break
    (yields : (Action.serve engine id work).Yields world (.error cause) last) :
    ∃ final, milestone.Leads engine id final ∧
      (final.Stops engine id cause last ∨
        final.Fails engine id cause last) := by
  rcases Action.serve_cases attempts.found yields with
    ⟨failure, draft, failed, isFailure, rfl⟩ | ⟨moved, draft, edited, fails⟩
  · cases isFailure
    refine ⟨milestone, .refl, ?_⟩
    by_cases refused : cause = .overConstrained ∧ solver.NextUnlocked
    · rcases refused with ⟨rfl, unlocked⟩
      exact .inl (.refused attempts unlocked failed)
    · exact .inr (.item attempts refused failed)
  · exact ⟨_, Relation.ReflTransGen.single (.item attempts edited),
      .inl (.raised fails)⟩

theorem Attempts.exists_next (sound : engine.Sound)
    (yields : (Action.serve engine id work).Yields world (.ok ()) last) :
    ∃ next later, milestone.Serves engine id next ∧
      next.taken = milestone.taken + 1 ∧ next.Told engine id last later := by
  rcases Action.serve_cases attempts.found yields with
    ⟨_, _, _, impossible, _⟩ | ⟨moved, draft, edited, held⟩
  · cases impossible
  · have serves : milestone.Serves engine id
        ⟨milestone.taken + 1, moved, world.adopt id draft⟩ :=
      .item attempts edited
    rcases round_keepsValues sound
      (World.getElem?_adopt_self draft attempts.found) held with
      ⟨later, isLater, _⟩
    exact ⟨_, later, serves, rfl, ⟨last, held, rfl⟩, isLater⟩

end Items

/-- Where deferred work fails, there is a last milestone. -/
theorem exists_break_of_drain (sound : engine.Sound) {last : World α}
    (patience : Nat) :
    ∀ (milestone : Milestone α) (world : World α) (solver : Solver α),
      milestone.Told engine id world solver →
      (Action.drain engine id milestone.taken patience).Yields world
        (.error cause) last →
      ∃ final, milestone.Leads engine id final ∧
        (final.Stops engine id cause last ∨
          final.Fails engine id cause last) := by
  induction patience with
  | zero =>
      intro _ _ _ _ yields
      exact absurd yields Action.yields_exhausted
  | succ patience induction =>
      intro milestone world solver told yields
      rw [Action.drain_succ] at yields
      rcases Action.yields_solver_bind.mp yields with
        ⟨lost, _, _⟩ | ⟨same, isSame, rest⟩
      · rw [told.found] at lost
        cases lost
      · rw [told.found] at isSame
        cases isSame
        cases next : solver.nextDeferred with
        | none =>
            rw [next] at rest
            cases (Action.yields_pure.mp rest).1
        | some work =>
            simp only [next] at rest
            split at rest
            · next exceeds =>
                rcases Action.yields_throw.mp rest with ⟨isCause, rfl⟩
                cases isCause
                have more : solver.nextDeferred.isSome = true := by simp [next]
                exact ⟨milestone, .refl, .inl (.exceeded told more exceeds)⟩
            · next within =>
                have attempts :
                    milestone.Attempts engine id world solver work :=
                  ⟨told, next, within⟩
                rcases Action.yields_bind.mp rest with
                  ⟨_, failed, isFailure⟩ | ⟨_, middle, served, later⟩
                · cases isFailure
                  exact attempts.exists_break failed
                · rcases attempts.exists_next sound served with
                    ⟨following, _, serves, taken, toldNext⟩
                  rw [← taken] at later
                  rcases induction following middle _ toldNext later with
                    ⟨final, leads, broke⟩
                  exact ⟨final, leads.head serves, broke⟩

end Milestone

/-! ## Operations -/

namespace Carries

variable (carries : Carries engine id task before (.error cause) after)
  (found : before.solvers[id]? = some solver)
  (yields : task.edit.Yields ⟨solver, []⟩ (.ok moved) draft)

include carries found yields

theorem exists_break (sound : engine.Sound) (quiet : before.Quiet) :
    ∃ final broken,
      (⟨0, moved, before.adopt id draft⟩ : Milestone α).Leads engine id final ∧
      (final.Stops engine id cause broken ∨
        final.Fails engine id cause broken) ∧
      (broken.change id Solver.atRest).Like after := by
  have quietAfter := carries.quiet sound quiet
  rcases carries.cases with
    ⟨lost, _, _⟩ | ⟨same, sameDraft, isSame, failed | done⟩
  · rw [found] at lost
    cases lost
  · rcases failed with ⟨failure, fails, _, _⟩
    rw [found] at isSame
    cases isSame
    rw [Edit.Yields, yields] at fails
    cases fails
  · rcases done with ⟨others, ended, again, announced, like⟩
    rw [found] at isSame
    cases isSame
    rw [Edit.Yields, yields] at again
    cases again
    have left : ∀ {broken : World α} {close : Solver α → Solver α},
        ended = broken.change id close →
        (∀ stopped, (close stopped).Quiet → close stopped = stopped.atRest) →
        (broken.change id Solver.atRest).Like after := by
      rintro broken close rfl closes
      rw [← World.change_congr fun stopped isStopped => closes stopped ?_]
      · exact like
      · have isClosed := World.getElem?_change_self close isStopped
        rw [← like.solvers] at isClosed
        exact quietAfter id _ isClosed
    cases moved with
    | nil => cases (Action.yields_pure.mp announced).1
    | cons target rest =>
        simp only [Action.announce, List.isEmpty_cons, Bool.false_eq_true,
          if_false] at announced
        rcases Action.yields_bind.mp announced with
          ⟨_, fails, isFailure⟩ | ⟨_, middle, held, later⟩
        · cases isFailure
          have same : ended = ended.change id fun solver => solver :=
            congrArg (fun solvers => { ended with solvers })
              (List.modify_id id ended.solvers).symm
          exact ⟨_, ended, .refl, .inl (.raised fails),
            left same fun _ quiet => quiet.atRest.symm⟩
        · rcases round_keepsValues sound (World.getElem?_adopt_self draft found)
            held with ⟨between, isBetween, _⟩
          rcases Action.settle_cases later with
            ⟨lost, _, _⟩ | ⟨present, isPresent, ⟨_, isOk, _⟩ | settled⟩
          · rw [isBetween] at lost
            cases lost
          · cases isOk
          · rcases settled with
              ⟨_, last, drains, ⟨isOk, _⟩ | ⟨_, isFailure, same⟩⟩
            · cases isOk
            · cases isFailure
              have told : (⟨0, target :: rest, before.adopt id draft⟩ :
                  Milestone α).Told engine id _ _ :=
                ⟨⟨middle, held, rfl⟩, World.getElem?_change_self _ isBetween⟩
              rcases Milestone.exists_break_of_drain sound _ _ _ _ told
                drains with
                ⟨final, leads, broke⟩
              refine ⟨final, last, leads, broke, left same ?_⟩
              rintro ⟨⟩ ⟨dispatching, _, _⟩
              cases dispatching
              rfl

theorem failsLate (sound : engine.Sound) (layered : engine.Layered)
    (outer : Outer engine before) :
    ∃ events : List (Event α),
      after.history = events.reverse ++ (before.adopt id draft).history ∧
      ∃ final broken later,
        (⟨0, moved, before.adopt id draft⟩ : Milestone α).FailsLate engine id
          cause (events.filterMap (Event.noteOf id)) after final broken
          later := by
  have quiet := outer.quiet sound
  have steady := Task.edit_steady _ _ _ _ yields
  rcases carries.conducts sound quiet found yields with
    ⟨events, history, edited, later, isEdited, isLater, goes⟩
  rw [World.getElem?_adopt_self draft found] at isEdited
  cases isEdited
  rcases goes with ⟨earlier, last, final, broken, isNotes, turns, breaks, _⟩
  have represented : (before.adopt id draft).Represented :=
    (World.Advances.worked found yields).represented (outer.represented sound)
  have quietAfter := carries.quiet sound quiet id later isLater
  rcases carries.exists_break found yields sound quiet with
    ⟨final, broken, leads, broke, left⟩
  have finalRepresented := (leads.becomes sound).represented represented
  -- What the cleaning up leaves is what the failing part has left.
  have sameContents : ∀ {property : Solver α → Prop}, broken.At id property →
      (∀ stopped, property stopped → property stopped.atRest) →
      property later := by
    intro property holds carried
    rcases (World.At.change holds carried).of_like left with
      ⟨same, isSame, kept⟩
    rw [isLater] at isSame
    cases isSame
    exact kept
  refine ⟨events.reverse, ?_, final, broken, later, leads, broke, left, isLater,
    ?_, ?_, ?_, ?_, quietAfter⟩
  · rw [List.reverse_reverse, history]
  · intro stops
    have contents : ∀ {milestone : Milestone α} {property},
        milestone.Leads engine id final →
        milestone.Respects engine id property →
        milestone.world.Contents id property →
        property later.unknowns later.constraints := by
      intro milestone property since respects holds
      have held := since.contents layered respects holds
      exact sameContents (stops.contents sound layered finalRepresented
        (respects.of_leads since) held) fun _ holds => holds
    refine ⟨?_, ?_, ?_, ?_, ?_⟩
    · exact fun milestone _ since property respects holds =>
        contents since respects holds
    · intro milestone reached since held constraint stated spares holds
      have isRepresented := (reached.becomes sound).represented represented
      exact contents since
        (spares.respects_stating sound isRepresented stated) holds
    · intro milestone reached since target locked spares holds
      have isRepresented := (reached.becomes sound).represented represented
      exact contents since (spares.respects_locking sound isRepresented) holds
    · intro written isWritten
      exact sameContents (stops.keepsValues sound finalRepresented isWritten)
        fun _ holds => holds
    · intro world solver told
      exact sameContents (stops.intact finalRepresented sound told)
        fun _ holds => holds
  · intro world solver told
    exact sameContents (Milestone.keepsLocks sound finalRepresented broke told)
      fun _ holds => holds
  · exact (carries.runs sound).becomes.represented (outer.represented sound) id
      later isLater
  · have nothing : draft.solver.deferred = [] := by
      rw [(steady.idle (quiet id solver found).dispatching).1,
        (quiet id solver found).rested.2]
    have served := turns.serves.values
    simp only [Solver.work, nothing, List.nil_append] at served
    rcases breaks.exists_rest with ⟨rest, queue⟩
    refine ⟨rest, ?_⟩
    rw [isNotes, List.filterMap_append, List.filterMap_append, served,
      List.append_assoc, queue, List.append_assoc]

end Carries

/-- An operation outside of hooks that fails although its own edit has succeeded
keeps that edit, and all that has been done since until something failed: from
each milestone of the operation on, whatever no command of a hook and no later
item of deferred work has changed is there afterwards, for stated constraints
and locks only the commands matter, and the values are those that have been
written last. What has failed itself, because it contradicts the
constraints, has left values and constraints as they were, no constraint is left
that was made to hold a variable for a while, and work that was still waiting is
done neither then nor in the course of anything that commands do later. Every
command outside of hooks that may call hooks is such an operation, and so is
every command of a batch. -/
theorem carries_failsLate (patience depth : Nat) (id : SolverId) :
    (∀ (before after : World α) (task : Task α) (solver : Solver α)
      (draft : Draft α) (moved : List VariableId) (cause : Failure α),
      Outer (.ofDepth patience depth) before →
      before.solvers[id]? = some solver →
      task.edit.Yields ⟨solver, []⟩ (.ok moved) draft →
      Carries (.ofDepth patience depth) id task before (.error cause) after →
      (∃ events : List (Event α),
        after.history = events.reverse ++ (before.adopt id draft).history ∧
        ∃ final broken later,
          (⟨0, moved, before.adopt id draft⟩ : Milestone α).FailsLate
            (.ofDepth patience depth) id cause
            (events.filterMap (Event.noteOf id)) after final broken later) ∧
      ∀ final, Onward (.ofDepth patience depth) after final →
        ∀ since : List (Event α),
          final.history = since.reverse ++ after.history →
          Event.SelfContained id since) ∧
    (∀ (before after : World α) (command : Command α)
      (outcome : Except (Failure α) (Reply α)), command.isBatch = false →
      (Action.execute (.ofDepth patience depth) none command).Yields before
        outcome after →
      Operates (.ofDepth patience depth) before (ending outcome) after) ∧
    ∀ (target : VariableId) (value : α) (before after : Draft α)
      (result : Except (Failure α) (List VariableId)),
      before.solver.Coherent →
      (Edit.applyValue target value).Yields before result after →
      before.solver.KeepsLocks after.solver ∧
        (before.solver.lockOf target = none →
          after.solver.constraints = before.solver.constraints) := by
  have sound : (Engine.ofDepth patience depth : Engine α).Sound :=
    Engine.ofDepth_sound patience depth
  refine ⟨?_, ?_, ?_⟩
  · intro before after task solver draft moved cause outer found yields carries
    refine ⟨carries.failsLate found yields sound
      (Engine.ofDepth_layered patience depth) outer, ?_⟩
    intro final onward since history
    have quiet := carries.quiet sound (outer.quiet sound)
    exact (onward.accounts sound).selfContained history quiet
      (onward.quiet sound quiet) id
  · exact fun _ _ _ _ single yields => operates_of_execute single yields
  · intro target value before after result coherent yields
    exact ⟨Edit.applyValue_keepsLocks coherent yields,
      fun unlocked => Edit.constraints_applyValue coherent unlocked yields⟩

/-- A world in which the hook of `x` sets `y`, `z` and `w`, though `z` cannot be
another number than it is. -/
def overreachingWorld : World ℚ :=
  ((play (.ofDepth 9 3) .empty
    [.operation (.newSolver "s" true true (.literal (some 0)) 10),
      .operation (.addVariable "s" "x" none (.literal (some 1))),
      .operation (.addVariable "s" "y" none (.literal (some 2))),
      .operation (.addVariable "s" "z" none (.literal (some 3))),
      .operation (.addVariable "s" "w" none (.literal (some 4))),
      .operation (.addConstraint "s" none [(.label "z", .literal (some 1))]
        (.literal (some 3))),
      .observeInline "x"
        (.ofList
          [(.operation (.setValue "y" (.literal (some 5)) .chained), false),
            (.operation (.setValue "z" (.literal (some 6)) .chained), false),
            (.operation (.setValue "w" (.literal (some 7)) .chained), false)])
        none]).getLast?.map Step.world).getD .empty

/-- In that world, the constraint `x = 9` is added. -/
def overreachingTask : Task ℚ :=
  .addConstraint [(.handle ⟨0, 0⟩, some 1)] (some 9)

def contradicted? {β : Type} :
    Option (Except (Failure ℚ) β × World ℚ) → Option (World ℚ)
  | some (.error .overConstrained, after) => some after
  | _ => none

theorem eq_of_contradicted? {β : Type}
    {run : Option (Except (Failure ℚ) β × World ℚ)} {after : World ℚ}
    (isAfter : contradicted? run = some after) :
    run = some (.error .overConstrained, after) := by
  unfold contradicted? at isAfter
  split at isAfter
  · cases isAfter
    rfl
  · cases isAfter

theorem Milestone.FailsLate.stops {own final : Milestone α}
    {notes : List (Note α)} {broken : World α} {later : Solver α}
    (fails : own.FailsLate engine id .overConstrained notes after final broken
      later)
    (unlocked : ∀ target, later.lockOf target = none) :
    final.Stops engine id .overConstrained broken := by
  refine fails.broke.resolve_right ?_
  rintro ⟨attempts, other, _⟩
  refine other ⟨rfl, fun target value rest _ => ?_⟩
  have locks := fails.locks _ _ attempts.toTold target
  rw [unlocked, Option.isSome_none] at locks
  exact Option.isNone_iff_eq_none.mp (Option.isSome_eq_false_iff.mp locks.symm)

theorem carries_failsLate_overreachingWorld :
    ∃ solver draft moved after, overreachingWorld.solvers[0]? = some solver ∧
      overreachingTask.edit.Yields ⟨solver, []⟩ (.ok moved) draft ∧
      Carries (.ofDepth 9 3) 0 overreachingTask overreachingWorld
        (.error .overConstrained) after ∧
      (∃ events : List (Event ℚ),
        after.history =
          events.reverse ++ (overreachingWorld.adopt 0 draft).history ∧
        ∃ final broken later,
          (⟨0, moved, overreachingWorld.adopt 0 draft⟩ :
            Milestone ℚ).FailsLate (.ofDepth 9 3) 0 .overConstrained
              (events.filterMap (Event.noteOf 0)) after final broken later ∧
          final.Stops (.ofDepth 9 3) 0 .overConstrained broken ∧
          later.constraints.keys = [0, 1] ∧
          [0, 1, 2, 3].map later.value? =
            [some 9, some 5, some 3, some 4]) ∧
      (∃ final since, Onward (.ofDepth 9 3) after final ∧
        final.history = since.reverse ++ after.history ∧
        Event.SelfContained 0 since) ∧
      (∃ outcome last, Operates (.ofDepth 9 3) overreachingWorld outcome last) ∧
      ∃ result given, (Edit.applyValue 0 9).Yields ⟨solver, []⟩ result given ∧
        solver.KeepsLocks given.solver := by
  rcases @carries_failsLate ℚ _ 9 3 0 with ⟨fails, operates, keeps⟩
  have sound : (Engine.ofDepth 9 3 : Engine ℚ).Sound :=
    Engine.ofDepth_sound 9 3
  have outer : Outer (.ofDepth 9 3) overreachingWorld :=
    outer_of_reached (.of_last _ _)
  have isThere : overreachingWorld.solvers[0]?.isSome = true := by
    decide +kernel
  rcases Option.isSome_iff_exists.mp isThere with ⟨solver, found⟩
  have edits : ∀ solver ∈ overreachingWorld.solvers[0]?,
      (overreachingTask.edit.run ⟨solver, []⟩).1.toOption.isSome = true := by
    decide +kernel
  have ran : ((contradicted? ((Action.perform (.ofDepth 9 3) 0
      overreachingTask.edit).run.run overreachingWorld)).bind fun after =>
        after.solvers[0]?.map fun later =>
          (later.constraints.keys, [0, 1, 2, 3].map later.value?,
            later.unknowns.keys.all fun target =>
              (later.lockOf target).isNone)) =
      some ([0, 1], [some 9, some 5, some 3, some 4], true) := by
    decide +kernel
  have goesOn : ((contradicted? ((Action.perform (.ofDepth 9 3) 0
      overreachingTask.edit).run.run overreachingWorld)).bind fun after =>
        (Action.perform (.ofDepth 9 3) 0 Edit.writeSolution).run.run
          after).isSome = true := by
    decide +kernel
  have solves : ((Action.execute (.ofDepth 9 3) none
      (.operation (.solve "s"))).run.run overreachingWorld).isSome = true := by
    decide +kernel
  rcases Option.bind_eq_some_iff.mp ran with ⟨after, isAfter, isLeft⟩
  rw [isAfter, Option.bind_some] at goesOn
  rcases Option.isSome_iff_exists.mp goesOn with ⟨⟨_, onwards⟩, solved⟩
  rcases Option.isSome_iff_exists.mp solves with ⟨⟨outcome, last⟩, executed⟩
  have onward : Onward (.ofDepth 9 3) after onwards :=
    (Issues.closing solved).onward
  rcases onward.accounts sound with ⟨since, sinceThen, _⟩
  rw [← List.reverse_reverse since] at sinceThen
  have carries : Carries (.ofDepth 9 3) 0 overreachingTask overreachingWorld
      (.error .overConstrained) after :=
    .performed (eq_of_contradicted? isAfter)
  rcases ended : overreachingTask.edit.run ⟨solver, []⟩ with ⟨result, draft⟩
  have succeeds := edits solver found
  rw [ended] at succeeds
  cases result with
  | error failure => cases succeeds
  | ok moved =>
      rcases fails _ _ _ _ _ _ _ outer found ended carries with
        ⟨⟨events, history, final, broken, later, late⟩, afterwards⟩
      rw [late.found] at isLeft
      rcases Prod.mk.inj (Option.some.inj isLeft) with ⟨keys, isLeft⟩
      rcases Prod.mk.inj isLeft with ⟨values, unlocked⟩
      have free : ∀ target, later.lockOf target = none := by
        intro target
        refine Option.not_isSome_iff_eq_none.mp fun locked => ?_
        have isNone := List.all_eq_true.mp unlocked target
          (Solver.mem_keys_of_lockOf locked)
        rw [Option.isNone_iff_eq_none.mp isNone] at locked
        cases locked
      have coherent := (outer.represented sound 0 solver found).coherent
      exact ⟨solver, draft, moved, after, found, ended, carries,
        ⟨events, history, final, broken, later, late, late.stops free, keys,
          values⟩,
        ⟨onwards, since.reverse, onward, sinceThen,
          afterwards onwards onward since.reverse sinceThen⟩,
        ⟨_, _, operates _ _ _ _ rfl executed⟩,
        _, _, Edit.yields_run _ _,
        (keeps 0 9 _ _ _ coherent (Edit.yields_run _ _)).1⟩

end Session

end LiveLinear
