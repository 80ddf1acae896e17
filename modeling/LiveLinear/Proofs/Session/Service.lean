import LiveLinear.Proofs.Session.Outermost

namespace LiveLinear

/-! # The service of deferred work

An operation outside of hooks that does not fail has done all that hooks asked
for on its way: every value in the order in which it was asked for, and no solve
is lost. -/

variable {α : Type}

/-- Whether notes, oldest first, tell of deferred work that has been served to
the end: the values taken up are those that were queued, a solve is taken up
where no value is queued, and after each solve that was put off a solve is
carried out from start to end. -/
structure Note.Served (notes : List (Note α)) : Prop where
  values : notes.filterMap Note.taken? = notes.filterMap Note.queued?
  solves (earlier later : List (Note α))
    (taken : notes = earlier ++ .solveTaken :: later) :
    earlier.filterMap Note.taken? = earlier.filterMap Note.queued?
  deferred (earlier later : List (Note α))
    (asked : notes = earlier ++ .solveDeferred :: later) :
    Note.Solves later

theorem Work.Serves.served {notes : List (Note α)}
    (serves : (Work.none : Work α).Serves notes .none) : Note.Served notes := by
  constructor
  · simpa [Work.none] using serves.values.symm
  · intro earlier later taken
    simpa [Work.none] using (serves.solves earlier later taken).symm
  · intro earlier later asked
    exact (serves.deferred earlier later asked).resolve_left Bool.false_ne_true

theorem Solver.Quiet.work {solver : Solver α} (quiet : solver.Quiet) :
    solver.work = .none := by
  rw [Solver.work, quiet.rested.1, quiet.rested.2, Work.none]

variable [Scalar α]

theorem Task.serves_of_quiet {task : Task α} {solver : Solver α}
    {draft : Draft α} {result : Except (Failure α) (List VariableId)}
    (quiet : solver.Quiet)
    (yields : task.edit.Yields ⟨solver, []⟩ result draft) :
    solver.work.Serves draft.notes.reverse draft.solver.work := by
  rcases Task.edit_minds _ _ _ _ yields quiet.dispatching with
    ⟨_, deferred, notes, isNotes, others⟩
  rw [List.append_nil] at isNotes
  refine .of_unconcerned ?_ deferred ?_
  · intro note member
    rw [isNotes] at member
    exact others note (List.mem_reverse.mp member)
  · intro pending
    cases pending.symm.trans quiet.rested.1

namespace Action

variable {engine : Engine α} {before after : World α} {id : SolverId}
  {solver : Solver α} {result : Ending α}

/-- A queued value of a variable that is gone is taken from the queue, and that
is all. -/
theorem drain_of_deleted {target : VariableId} {value : α}
    {rest : List (VariableId × α)} {taken patience : Nat}
    (found : before.solvers[id]? = some solver)
    (queue : solver.deferred = (target, value) :: rest)
    (gone : solver.unknowns.get? target = none)
    (within : ¬solver.settings.cascadeLimit < taken + 1) :
    (drain engine id taken (patience + 1)).Yields before result after ↔
      (drain engine id (taken + 1) patience).Yields
        (before.adopt id ⟨{ solver with deferred := rest },
          [.valueTaken target value]⟩)
        result after := by
  have takes : (Edit.takeValue target value rest).Yields ⟨solver, []⟩ (.ok [])
      ⟨{ solver with deferred := rest }, [.valueTaken target value]⟩ := by
    simp only [Edit.takeValue, Edit.yields_update_bind, Edit.yields_note_bind,
      Edit.applyValue, Edit.yields_current_bind, gone, Edit.yields_pure,
      and_self]
  have skips : ∀ {world : World α},
      (round engine id []).Yields world (.ok ()) world :=
    fun {_} => yields_pure.mpr ⟨rfl, rfl⟩
  have served :
      (serve engine id (Edit.takeValue target value rest)).Yields before
        (.ok ())
        (before.adopt id ⟨{ solver with deferred := rest },
        [.valueTaken target value]⟩) :=
    (yields_bind_of_ok (edit_of_yields found takes)).mpr skips
  rw [drain_succ, Action.solver, bind_assoc, yields_get_bind, found,
    yields_pure_bind]
  simp only [Solver.nextDeferred_of_queued queue, if_neg within]
  exact yields_bind_of_ok served

end Action

namespace Session

variable {engine : Engine α} {before after : World α} {id : SolverId}
  {task : Task α}

theorem Carries.served (sound : engine.Sound) (outer : Outer engine before)
    (carries : Carries engine id task before (.ok ()) after) :
    ∃ events : List (Event α),
      after.history = events.reverse ++ before.history ∧
      Note.Served (events.filterMap (Event.noteOf id)) := by
  have quiet := outer.quiet sound
  rcases carries.cases with
    ⟨_, impossible, _⟩ | ⟨solver, draft, found, failed | done⟩
  · cases impossible
  · rcases failed with ⟨_, _, impossible, _⟩
    cases impossible
  · rcases done with ⟨moved, _, yields, _, _⟩
    have edits : before.Undergoes (before.adopt id draft) id
        fun former notes later => former.work.Serves notes later.work :=
      .adopt found (Task.serves_of_quiet (quiet id solver found) yields)
    have conducts : (before.adopt id draft).Undergoes after id Solver.KeepsOn :=
      carries.conducts sound quiet found yields
    have serves : before.Undergoes after id
        fun former notes later => former.work.Serves notes later.work :=
      edits.trans conducts fun _ _ _ _ _ first second =>
        first.trans second.turns.serves
    rcases serves with
      ⟨events, history, former, later, isFormer, isLater, served⟩
    rw [(quiet id former isFormer).work,
      ((carries.quiet sound quiet) id later isLater).work] at served
    exact ⟨events.reverse, by rw [List.reverse_reverse, history], served.served⟩

theorem dispatching_of_executeScript (sound : engine.Sound) {context : Option α}
    {script : Script α} {result : Ending α}
    (busy : before.At id fun solver => solver.dispatching = true)
    (yields : (Action.executeScript engine context script).Yields before result
      after) :
    after.At id fun solver => solver.dispatching = true :=
  ((Action.executeScript_runs sound context script _ _ _ yields).attends id
    trivial busy).2

/-- An operation outside of hooks that does not fail has served, when it ends,
what hooks have asked its solver for: the values in the order in which they were
queued and each of them once, and the solves, which are taken up when no value
is queued and carried out from start to end. While hooks run, whatever is asked
for, exactly the requests for values that can be met are queued, and nothing
that a hook does lets the solver think that no hook runs. A value of a variable
that is gone by then has no effect. -/
theorem carries_served (patience depth : Nat) (id : SolverId) :
    (∀ (before after : World α) (task : Task α),
      Outer (.ofDepth patience depth) before →
      Carries (.ofDepth patience depth) id task before (.ok ()) after →
      ∃ events : List (Event α),
        after.history = events.reverse ++ before.history ∧
        Note.Served (events.filterMap (Event.noteOf id))) ∧
    (∀ (solver : Solver α) (task : Task α)
      (result : Except (Failure α) (List VariableId)) (draft : Draft α),
      solver.dispatching = true → task.edit.Yields ⟨solver, []⟩ result draft →
      draft.notes.reverse.filterMap Note.queued? =
        (task.request? solver).toList) ∧
    (∀ (before after : World α) (context : Option α) (script : Script α)
      (result : Ending α),
      (before.At id fun solver => solver.dispatching = true) →
      (Action.executeScript (.ofDepth patience depth) context script).Yields
        before result after →
      after.At id fun solver => solver.dispatching = true) ∧
    ∀ (before after : World α) (solver : Solver α) (target : VariableId)
      (value : α) (rest : List (VariableId × α)) (taken remaining : Nat)
      (result : Ending α), before.solvers[id]? = some solver →
      solver.deferred = (target, value) :: rest →
      solver.unknowns.get? target = none →
      ¬solver.settings.cascadeLimit < taken + 1 →
      ((Action.drain (.ofDepth patience depth) id taken (remaining + 1)).Yields
        before result after ↔
        (Action.drain (.ofDepth patience depth) id (taken + 1) remaining).Yields
          (before.adopt id ⟨{ solver with deferred := rest },
            [.valueTaken target value]⟩)
          result after) := by
  have sound : (Engine.ofDepth patience depth : Engine α).Sound :=
    Engine.ofDepth_sound patience depth
  refine ⟨?_, ?_, ?_, ?_⟩
  · exact fun _ _ _ outer carries => carries.served sound outer
  · exact fun _ _ _ _ busy yields => Task.queued_of_dispatching busy yields
  · exact fun _ _ _ _ _ busy yields =>
      dispatching_of_executeScript sound busy yields
  · exact fun _ _ _ _ _ _ _ _ _ found queue gone within =>
      Action.drain_of_deleted found queue gone within

/-- A world in which the hook of `x` sets `y` and `z`, deletes `z` and asks for
a solve. -/
def remindingWorld : World ℚ :=
  ((play (.ofDepth 9 3) .empty
    [.operation (.newSolver "s" true true (.literal (some 0)) 10),
      .operation (.addVariable "s" "x" none (.literal (some 1))),
      .operation (.addVariable "s" "y" none (.literal (some 2))),
      .operation (.addVariable "s" "z" none (.literal (some 3))),
      .observeInline "x"
        (.ofList
          [(.operation (.setValue "y" (.literal (some 5)) .chained), false),
            (.operation (.setValue "z" (.literal (some 6)) .chained), false),
            (.operation (.deleteVariable "z"), false),
            (.operation (.solve "s"), false)])
        none]).getLast?.map Step.world).getD .empty

theorem carries_served_remindingWorld :
    (∃ after,
      Carries (.ofDepth 9 3) 0 (.setValue ⟨0, 0⟩ (some 4)) remindingWorld
        (.ok ()) after ∧ ∃ events : List (Event ℚ),
        after.history = events.reverse ++ remindingWorld.history ∧
        Note.Served (events.filterMap (Event.noteOf 0)) ∧
        (after.history.filterMap (Event.noteOf 0)).filterMap Note.taken? =
          [(2, 6), (1, 5)]) ∧
    ∃ solver, remindingWorld.solvers[0]? = some solver ∧
      (∃ result draft, (Task.setValue ⟨0, 1⟩ (some 5)).edit.Yields
          ⟨{ solver with dispatching := true }, []⟩ result draft ∧
        draft.notes.reverse.filterMap Note.queued? = [(1, 5)]) ∧
      (∃ result after, (Action.executeScript (.ofDepth 9 3) none
          (.ofList [(.operation (.solve "s"), false)])).Yields
            (remindingWorld.change 0 fun solver =>
              { solver with dispatching := true }) result after ∧
        after.At 0 fun solver => solver.dispatching = true) ∧
      ∃ result after, (Action.drain (.ofDepth 9 3) 0 0 2).Yields
          (remindingWorld.change 0 fun solver =>
            { solver with deferred := [(7, 6)] }) result after ∧
        (Action.drain (.ofDepth 9 3) 0 1 1).Yields
          ((remindingWorld.change 0 fun solver =>
            { solver with deferred := [(7, 6)] }).adopt 0
              ⟨{ solver with deferred := [] }, [.valueTaken 7 6]⟩) result
              after := by
  rcases @carries_served ℚ _ 9 3 0 with ⟨served, queued, busy, skipped⟩
  have isThere : remindingWorld.solvers[0]?.isSome = true := by decide +kernel
  rcases Option.isSome_iff_exists.mp isThere with ⟨solver, found⟩
  refine ⟨?_, solver, found, ?_, ?_, ?_⟩
  · have ran : (match (Action.perform (.ofDepth 9 3) 0
        (Task.setValue ⟨0, 0⟩ (some 4)).edit).run.run remindingWorld with
        | some (.ok _, after) =>
            decide ((after.history.filterMap (Event.noteOf 0)).filterMap
              Note.taken? = [(2, 6), (1, 5)])
        | some (.error _, _) | none => false) = true := by
      decide +kernel
    split at ran
    · next after yields =>
        have carries :
            Carries (.ofDepth 9 3) 0 (.setValue ⟨0, 0⟩ (some 4)) remindingWorld
              (.ok ()) after := .performed yields
        rcases served _ _ _ (outer_of_reached (.of_last _ _)) carries with
          ⟨events, history, isServed⟩
        exact ⟨after, carries, events, history, isServed, of_decide_eq_true ran⟩
    · cases ran
    · cases ran
  · have accepts : ∀ solver ∈ remindingWorld.solvers[0]?,
        (Task.setValue ⟨0, 1⟩ (some 5)).request?
          { solver with dispatching := true } = some (1, 5) := by
      decide +kernel
    refine ⟨_, _, Edit.yields_run _ _, ?_⟩
    rw [queued _ _ _ _ rfl (Edit.yields_run _ _), accepts solver found]
    rfl
  · have ends : ((Action.executeScript (.ofDepth 9 3) none
        (.ofList [(.operation (.solve "s"), false)])).run.run
          (remindingWorld.change 0 fun solver =>
            { solver with dispatching := true })).isSome =
        true := by
      decide +kernel
    rcases Option.isSome_iff_exists.mp ends with ⟨⟨result, after⟩, yields⟩
    exact ⟨result, after, yields,
      busy _ _ _ _ _ ⟨_, World.getElem?_change_self _ found, rfl⟩ yields⟩
  · have ends : ((Action.drain (.ofDepth 9 3) 0 0 2).run.run
        (remindingWorld.change 0 fun solver =>
          { solver with deferred := [(7, 6)] })).isSome =
        true := by
      decide +kernel
    have suited : ∀ solver ∈ remindingWorld.solvers[0]?,
        (solver.unknowns.get? 7).isNone = true ∧
        ¬solver.settings.cascadeLimit < 0 + 1 := by
      decide +kernel
    rcases Option.isSome_iff_exists.mp ends with ⟨⟨result, after⟩, yields⟩
    rcases suited solver found with ⟨gone, within⟩
    exact ⟨result, after, yields,
      (skipped _ _ _ _ _ _ _ _ _ (World.getElem?_change_self _ found) rfl
        (Option.isNone_iff_eq_none.mp gone) within).mp yields⟩

end Session

end LiveLinear
