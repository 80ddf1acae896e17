import LiveLinear.Proofs.Session.Diagnosis
import LiveLinear.Proofs.Session.Passing
import LiveLinear.Proofs.Solver.Hooking

namespace LiveLinear

/-! # Subscriptions

A subscription is good for the hook that it was handed out for. Once another
hook, or nobody, has been registered in its place, the subscription does nothing
any more, for as long as that hook is not registered with the variable again.
Then it would be good for it again, since a hook is all that a subscription
knows. -/

variable {α : Type}

namespace World

variable {before after : World α} {id : SolverId} {target : VariableId}
  {hook : Option HookId}

/-- The hook that is registered with a variable, if the variable is there and
has one. -/
def hookOf (world : World α) (id : SolverId) (target : VariableId) :
    Option HookId :=
  world.solvers[id]?.bind fun solver => solver.hookOf target

theorem hookOf_of_some {solver : Solver α}
    (found : before.solvers[id]? = some solver) (target : VariableId) :
    before.hookOf id target = solver.hookOf target := by
  rw [hookOf, found]
  rfl

/-- A hook, or nobody, is registered with a live variable of a solver. -/
def Registers (id : SolverId) (target : VariableId) (hook : Option HookId)
    (before after : World α) : Prop :=
  ∃ solver draft, before.solvers[id]? = some solver ∧
    (Edit.observe ⟨solver.id, target⟩ hook).Yields ⟨solver, []⟩ (.ok ()) draft ∧
    after = before.adopt id draft

theorem Registers.found (registers : before.Registers id target hook after) :
    ∃ solver, after.solvers[id]? = some solver ∧
      solver.hookOf target = hook := by
  rcases registers with ⟨solver, draft, found, yields, rfl⟩
  refine ⟨draft.solver, getElem?_adopt_self draft found, ?_⟩
  rcases Edit.yields_observe.mp yields with ⟨_, _, impossible, _⟩
    | ⟨contents, live, _, rfl⟩
  · cases impossible
  · exact Solver.hookOf_setHook (Solver.get?_of_variableAt live) hook

theorem Registers.hookOf (registers : before.Registers id target hook after) :
    after.hookOf id target = hook := by
  rcases registers.found with ⟨solver, found, isHook⟩
  rw [hookOf_of_some found, isHook]

section Advancing

variable [Scalar α]

/-- A task that registers a hook with the variable either does so or changes
nothing. -/
theorem registers_of_observing {solver : Solver α} {draft : Draft α}
    {task : Task α} {result : Except (Failure α) (List VariableId)}
    {mine : HookId} (found : before.solvers[id]? = some solver)
    (yields : task.edit.Yields ⟨solver, []⟩ result draft)
    (hooks : task.Hooks target)
    (present : (before.adopt id draft).hookOf id target = some mine) :
    before.hookOf id target = some mine ∨
      before.Registers id target (some mine) (before.adopt id draft) := by
  cases task with
  | observe handle hook =>
      rcases hooks with ⟨rfl, _⟩
      rcases Edit.yields_still.mp yields with ⟨outcome, observed, _⟩
      rw [hookOf_of_some (getElem?_adopt_self draft found)] at present
      rcases Edit.yields_observe.mp observed with
        ⟨_, _, _, rfl⟩ | ⟨contents, live, rfl, isDraft⟩
      · rw [hookOf_of_some found]
        exact .inl present
      · have own : handle = ⟨solver.id, handle.id⟩ := by
          rw [← Solver.solver_of_variableAt live]
        have isHook : hook = some mine := by
          rw [isDraft, Solver.hookOf_setHook (Solver.get?_of_variableAt live)]
            at present
          exact present
        rw [own, isHook] at observed
        exact .inr ⟨solver, draft, found, observed, rfl⟩
  | _ => exact hooks.elim

/-- A hook comes to a variable by being registered with it. -/
theorem Advances.registers {mine : HookId} (advances : before.Advances after)
    (present : after.hookOf id target = some mine) :
    before.hookOf id target = some mine ∨
    before.Registers id target (some mine) after := by
  -- What a solver does that gives no hook to the variable.
  have adopted : ∀ {other : SolverId} {solver : Solver α} {draft : Draft α},
      before.solvers[other]? = some solver →
      (before.adopt other draft).hookOf id target = some mine →
      (other = id → solver.GainsNoHook target draft.solver) →
        before.hookOf id target = some mine := by
    intro other solver draft found present gains
    by_cases same : other = id
    · subst other
      rw [hookOf_of_some (getElem?_adopt_self draft found)] at present
      rw [hookOf_of_some found]
      exact gains rfl mine present
    · rw [hookOf, getElem?_adopt_of_ne draft same] at present
      exact present
  cases advances with
  | relabelled like =>
      rw [hookOf, like.solvers] at present
      exact .inl present
  | recorded | defined => exact .inl present
  | founded settings =>
      rcases Option.bind_eq_some_iff.mp present with ⟨solver, found, isHook⟩
      rcases getElem?_addSolver_cases found with old | rfl
      · rw [hookOf_of_some old]
        exact .inl isHook
      · cases isHook
  | marked same =>
      rw [hookOf, getElem?_change] at present
      rcases Option.bind_eq_some_iff.mp present with ⟨later, found, isHook⟩
      rcases Option.map_eq_some_iff.mp found with ⟨solver, isFormer, rfl⟩
      rw [hookOf_of_some isFormer]
      split at isHook
      · have keeps : solver.GainsNoHook target _ :=
          .of_unknowns (same solver).unknowns
        exact .inl (keeps mine isHook)
      · exact .inl isHook
  | worked found yields =>
      rename_i solver result draft other task
      by_cases hooks : other = id ∧ task.Hooks target
      · rcases hooks with ⟨rfl, hooks⟩
        exact registers_of_observing found yields hooks present
      · refine .inl (adopted found present fun same => ?_)
        exact task.edit_gainsNoHook (fun isHooked => hooks ⟨same, isHooked⟩) _ _
          _ yields
  | resumed found next yields =>
      exact .inl (adopted found present fun _ =>
        Solver.gainsNoHook_of_nextDeferred next _ _ _ yields)

end Advancing

end World

/-! ## Subscriptions that have been superseded -/

namespace Subscription

variable {before after world : World α} {subscription : Subscription}

def Stale (subscription : Subscription) (world : World α) : Prop :=
  world.At subscription.solver fun solver =>
    ∀ mine, subscription.hook = some mine →
      solver.hookOf subscription.id ≠ some mine

/-- The hook that the subscription was handed out for, if any, is registered
again. -/
def Renews (subscription : Subscription) (before after : World α) : Prop :=
  ∃ mine, subscription.hook = some mine ∧
    before.Registers subscription.solver subscription.id (some mine) after

theorem stale_of_registers {hook : Option HookId}
    (registers : before.Registers subscription.solver subscription.id
      hook after)
    (other : ¬subscription.Renews before after) : subscription.Stale after := by
  rcases registers.found with ⟨solver, found, isHook⟩
  refine ⟨solver, found, fun mine own present => other ⟨mine, own, ?_⟩⟩
  rw [← isHook.symm.trans present]
  exact registers

theorem isChain_of_absent {trace : List (World α)}
    (absent : ∀ now ∈ trace, ∀ mine, subscription.hook = some mine →
      now.hookOf subscription.solver subscription.id ≠ some mine)
    (world : World α) :
    (world :: trace).IsChain fun before after =>
      ¬subscription.Renews before after := by
  induction trace generalizing world with
  | nil => exact .singleton world
  | cons next rest induction =>
      refine .cons_cons ?_
        (induction (fun now later => absent now (.tail _ later)) next)
      rintro ⟨mine, own, registers⟩
      exact absent next (.head _) mine own registers.hookOf

section Advancing

variable [Scalar α]

theorem Stale.advances (stale : subscription.Stale before)
    (advances : before.Advances after)
    (other : ¬subscription.Renews before after) : subscription.Stale after := by
  rcases stale with ⟨solver, found, isStale⟩
  rcases advances.ages.old _ solver found with ⟨later, isLater, _⟩
  refine ⟨later, isLater, fun mine own present => ?_⟩
  rw [← World.hookOf_of_some isLater] at present
  rcases advances.registers present with kept | registered
  · rw [World.hookOf_of_some found] at kept
    exact isStale mine own kept
  · exact other ⟨mine, own, registered⟩

/-- A stale subscription stays stale until its hook is registered again. -/
theorem Stale.chain {trace : List (World α)} (stale : subscription.Stale world)
    (advances : (world :: trace).IsChain World.Advances)
    (never : (world :: trace).IsChain fun before after =>
      ¬subscription.Renews before after) :
    ∀ now ∈ world :: trace, subscription.Stale now := by
  induction trace generalizing world with
  | nil =>
      intro now member
      rw [List.mem_singleton.mp member]
      exact stale
  | cons next rest induction =>
      intro now member
      rcases List.isChain_cons_cons.mp advances with ⟨advance, advancesLater⟩
      rcases List.isChain_cons_cons.mp never with ⟨other, neverLater⟩
      rcases List.mem_cons.mp member with rfl | later
      · exact stale
      · exact induction (stale.advances advance other) advancesLater neverLater
          now later

variable {engine : Engine α} {context : Option α} {label : String}

/-- A stale subscription says so. -/
theorem Stale.status (stale : subscription.Stale world)
    (bound : world.labels.subscriptions.get? label = some subscription) :
    (Action.execute engine context
      (.operation (.subscriptionStatus label))).Yields world
      (.ok (.subscription subscription.id false)) world := by
  rcases stale with ⟨solver, found, isStale⟩
  have inactive :
      (Action.isActive subscription).Yields world (.ok false) world := by
    rw [Action.isActive, Action.yields_solver_bind]
    refine .inr
      ⟨solver, found, Action.yields_pure.mpr ⟨congrArg Except.ok ?_, rfl⟩⟩
    cases own : subscription.hook with
    | none => rfl
    | some mine =>
        have absent := isStale mine own
        rw [Solver.hookOf] at absent
        simp [absent]
  rw [Action.execute, Action.operate, Action.subscriptionNamed,
    Action.yields_lookUp_bind bound, Action.yields_bind_of_ok inactive]
  exact Action.yields_pure.mpr ⟨rfl, rfl⟩

theorem Stale.cancel (stale : subscription.Stale world)
    (bound : world.labels.subscriptions.get? label = some subscription) :
    (Action.execute engine context (.operation (.cancel label))).Yields world
      (.ok .nothing) world := by
  rcases stale with ⟨solver, found, isStale⟩
  have edited :=
    Action.edit_of_yields found (Edit.yields_forget_of_stale isStale)
  rw [World.adopt_self found] at edited
  rw [Action.execute, Action.operate, Action.subscriptionNamed,
    Action.yields_lookUp_bind bound, Action.yields_bind_of_ok edited]
  exact Action.yields_pure.mpr ⟨rfl, rfl⟩

end Advancing

end Subscription

namespace Session

/-- Registering hands out a subscription for what has been registered. -/
theorem registers_of_observe {handle : VariableHandle} {hook : Option HookId}
    {label : String} {world after : World α} {reply : Reply α}
    (yields : (Action.observe handle hook (some label)).Yields world (.ok reply)
      after) :
    ∃ middle, world.Registers handle.solver handle.id hook middle ∧
      middle.Like after ∧ after.labels.subscriptions.get? label =
        some ⟨handle.solver, handle.id, hook⟩ := by
  rcases Action.yields_bind_ok.mp yields with ⟨_, middle, edited, rest⟩
  rcases Action.yields_bind_ok.mp rest with ⟨_, bound, binds, done⟩
  rcases Action.yields_edit.mp edited with
    ⟨_, impossible, _⟩ | ⟨solver, draft, found, yields, rfl⟩
  · cases impossible
  · simp only [Action.bindSubscription, Action.yields_relabel] at binds
    rw [(Action.yields_pure.mp done).2, binds.2]
    refine ⟨_, ⟨solver, draft, found, ?_, rfl⟩, .relabel _ _,
      Table.get?_put_self _ _ _⟩
    rcases Edit.yields_observe.mp yields with ⟨_, _, impossible, _⟩
      | ⟨contents, live, _⟩
    · cases impossible
    · rw [← Solver.solver_of_variableAt live]
      exact yields

variable [Scalar α]

/-- Registering hands out a subscription. From when something else is registered
in its place, and until its hook is registered again, it is inactive, and
cancelling it leaves everything as it is: at every moment of every session, also
while hooks run. -/
theorem superseded_inert (patience depth : Nat) (commands : List (Command α)) :
    (∀ (handle : VariableHandle) (hook : Option HookId) (label : String)
      (world after : World α) (reply : Reply α),
      (Action.observe handle hook (some label)).Yields world (.ok reply) after →
        ∃ middle, world.Registers handle.solver handle.id hook middle ∧
          middle.Like after ∧ after.labels.subscriptions.get? label =
            some ⟨handle.solver, handle.id, hook⟩) ∧
      ∀ (trace : List (World α)),
        Traces (.ofDepth patience depth) commands trace →
        ∀ (before again : World α) (later : List (World α))
          (subscription : Subscription) (hook : Option HookId),
          (before :: again :: later) <:+: World.empty :: trace →
          before.Registers subscription.solver subscription.id hook again →
          ((before :: again :: later).IsChain fun earlier next =>
            ¬subscription.Renews earlier next) →
            ∀ now ∈ again :: later, ∀ label,
              now.labels.subscriptions.get? label = some subscription →
                ∀ (engine : Engine α) (context : Option α),
                  (Action.execute engine context
                    (.operation (.subscriptionStatus label))).Yields now
                      (.ok (.subscription subscription.id false)) now ∧
                    (Action.execute engine context
                      (.operation (.cancel label))).Yields now (.ok .nothing)
                      now := by
  refine ⟨fun _ _ _ _ _ _ yields => registers_of_observe yields, ?_⟩
  intro trace traces before again later subscription hook passed registers never
    now member label bound engine context
  rcases List.isChain_cons_cons.mp never with ⟨other, neverLater⟩
  have chain := List.IsChain.infix traces.advances passed
  have advances := (List.isChain_cons_cons.mp chain).2
  have stale :=
    (Subscription.stale_of_registers registers other).chain advances neverLater
      now member
  exact ⟨stale.status bound, stale.cancel bound⟩

/-- A second hook comes in the place of the first one, and then the variable
goes. -/
def handoverCommands : List (Command ℚ) :=
  [.operation (.newSolver "s" true true (.literal (some 0)) 10),
    .operation (.addVariable "s" "x" (some "x") (.literal (some 0))),
    .defineHook "g" .done,
    .defineHook "h" .done,
    .observe "x" (.label "g") (some "first"),
    .observe "x" (.label "h") (some "second"),
    .operation (.cancel "first"),
    .operation (.deleteVariable "x")]

def handoverChanges : List (World ℚ → World ℚ) :=
  [fun world => world.addSolver ⟨true, true, some 0, 10⟩,
    World.relabel fun labels =>
      { labels with solvers := labels.solvers.put "s" 0 },
    World.attempt 0 (.addVariable (some "x") (some 0)),
    World.relabel fun labels =>
      { labels with unknowns := labels.unknowns.put "x" ⟨0, 0⟩ },
    fun world => world.addHook "g" .done,
    World.relabel fun labels => { labels with hooks := labels.hooks.put "g" 0 },
    fun world => world.addHook "h" .done,
    World.relabel fun labels => { labels with hooks := labels.hooks.put "h" 1 },
    World.attempt 0 (.observe ⟨0, 0⟩ (some 0)),
    World.relabel fun labels => { labels with
      subscriptions := labels.subscriptions.put "first" ⟨0, 0, some 0⟩ },
    World.attempt 0 (.observe ⟨0, 0⟩ (some 1)),
    World.relabel fun labels => { labels with
      subscriptions := labels.subscriptions.put "second" ⟨0, 0, some 1⟩ },
    World.attempt 0 (.forget 0 (some 0)),
    World.attempt 0 (.deleteVariable ⟨0, 0⟩)]

theorem traces_handover :
    Traces (.ofDepth 9 3) handoverCommands
      (World.empty.passing handoverChanges) := by
  apply traces_passing
  · simp only [handoverChanges, List.forall_mem_cons]
    refine ⟨fun _ => .founded _, ?_⟩
    refine ⟨World.advances_relabel _, World.advances_attempt _ _,
      World.advances_relabel _, ?_⟩
    refine ⟨fun _ => .defined _ _, World.advances_relabel _,
      fun _ => .defined _ _, ?_⟩
    refine ⟨World.advances_relabel _, World.advances_attempt _ _,
      World.advances_relabel _, ?_⟩
    refine ⟨World.advances_attempt _ _, World.advances_relabel _,
      World.advances_attempt _ _, ?_⟩
    exact ⟨World.advances_attempt _ _, by simp⟩
  · repeat first
      | exact List.Sublist.refl _
      | apply List.Sublist.cons_cons
      | apply List.Sublist.cons

theorem superseded_inert_handover :
    ∃ before again later,
      Traces (.ofDepth 9 3) handoverCommands
        (World.empty.passing handoverChanges) ∧
        (before :: again :: later) <:+:
          World.empty :: World.empty.passing handoverChanges ∧
        before.hookOf 0 0 = some 0 ∧
        before.Registers 0 0 (some 1) again ∧
        ((before :: again :: later).IsChain fun earlier next =>
          ¬Subscription.Renews ⟨0, 0, some 0⟩ earlier next) ∧
        later.length = 3 ∧ ∀ now ∈ again :: later,
          now.labels.subscriptions.get? "first" = some ⟨0, 0, some 0⟩ ∧
            (Action.execute (.ofDepth 9 3) none
              (.operation (.subscriptionStatus "first"))).Yields now
                (.ok (.subscription 0 false)) now ∧
            (Action.execute (.ofDepth 9 3) none
              (.operation (.cancel "first"))).Yields now (.ok .nothing)
              now := by
  have reached : ∃ before again later, World.empty.passing handoverChanges =
      (World.empty.passing handoverChanges).take 9 ++
        (before :: again :: later) ∧ before.hookOf 0 0 = some 0 ∧
        before.Registers 0 0 (some 1) again ∧
        (∀ now ∈ again :: later, now.hookOf 0 0 ≠ some 0) ∧ later.length = 3 ∧
        ∀ now ∈ again :: later,
        now.labels.subscriptions.get? "first" = some ⟨0, 0, some 0⟩ := by
    exact ⟨_, _, _,
      rfl, by decide +kernel, ⟨_, _, rfl, rfl, rfl⟩, by decide +kernel, rfl, by
      decide +kernel⟩
  rcases reached with
    ⟨before, again, later, isTrace, first, registers, others, three, bound⟩
  have passed : (before :: again :: later) <:+:
      World.empty :: World.empty.passing handoverChanges := by
    rw [isTrace]
    exact (List.suffix_append _ _).isInfix.trans (List.suffix_cons _ _).isInfix
  have never : (before :: again :: later).IsChain fun before after =>
      ¬(⟨0, 0, some 0⟩ : Subscription).Renews before after :=
    Subscription.isChain_of_absent (fun now member mine own =>
      own ▸ others now member) before
  refine ⟨before, again, later, traces_handover, passed, first, registers,
    never, three, ?_⟩
  intro now member
  have inert :=
    (superseded_inert 9 3 handoverCommands).2 _ traces_handover before again
      later ⟨0, 0, some 0⟩ (some 1) passed registers never now member "first"
      (bound now member)
    (.ofDepth 9 3) none
  exact ⟨bound now member, inert⟩

end Session

end LiveLinear
