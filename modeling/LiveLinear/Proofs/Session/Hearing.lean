import LiveLinear.Proofs.Session.Consistency
import LiveLinear.Proofs.Solver.Hooking

namespace LiveLinear

/-! # What a hook hears

A variable is watched: its hook is registered, and stays so. The hook knows the
value that it was called with last. Since then, the variable may have strayed
from that value, by the tolerance at most for each solution that has been
written. -/

variable {α : Type}

/-! ## Watching a variable -/

structure Watch where
  solver : SolverId
  id : VariableId
  hook : HookId

structure Aliases where
  solvers : List String
  unknowns : List String
  subscriptions : List String

/-- Whether a command itself, apart from those that it holds, leaves a watched
variable to its hook: it neither replaces nor removes the hook, and sets no
tolerance for its solver. -/
def Command.spares (aliases : Aliases) : Command α → Bool
  | .operation (.change name (.tolerance _)) => decide (name ∉ aliases.solvers)
  | .operation (.cancel name) => decide (name ∉ aliases.subscriptions)
  | .observe subject _ _ | .observeInline subject _ _ =>
      decide (subject ∉ aliases.unknowns)
  | _ => true

def Event.spares (aliases : Aliases) : Event α → Bool
  | .commandEnded command outcome => outcome.isOk && command.spares aliases
  | _ => true

namespace Aliases

variable {watch : Watch} {aliases : Aliases}

def dropSubscription (aliases : Aliases) : Option String → Aliases
  | none => aliases
  | some label =>
      { aliases with
        subscriptions := aliases.subscriptions.filter (· ≠ label) }

/-- What labels stand for after a command. -/
def heed (watch : Watch) (aliases : Aliases) : Command α → Aliases
  | .operation (.newSolver label ..) =>
      { aliases with solvers := aliases.solvers.filter (· ≠ label) }
  | .operation (.addVariable _ label _ _) =>
      { aliases with unknowns := aliases.unknowns.filter (· ≠ label) }
  | .operation (.variableHandle name id label) =>
      { aliases with
        unknowns :=
          if name ∈ aliases.solvers ∧ id = watch.id then
            label :: aliases.unknowns
          else aliases.unknowns.filter (· ≠ label) }
  | .observe _ _ label | .observeInline _ _ label =>
      aliases.dropSubscription label
  | _ => aliases

def next (watch : Watch) (aliases : Aliases) : Event α → Aliases
  | .commandEnded command _ => aliases.heed watch command
  | _ => aliases

/-- What labels stand for after some events, latest event first. -/
def after (watch : Watch) (aliases : Aliases) : List (Event α) → Aliases
  | [] => aliases
  | event :: older => (aliases.after watch older).next watch event

/-- Whether events, latest event first, leave a watched variable to its hook. -/
def sparedBy (watch : Watch) (aliases : Aliases) : List (Event α) → Bool
  | [] => true
  | event :: older =>
      aliases.sparedBy watch older && event.spares (aliases.after watch older)

theorem after_append (later earlier : List (Event α)) :
    aliases.after watch (later ++ earlier) =
      (aliases.after watch earlier).after watch later := by
  induction later with
  | nil => rfl
  | cons event rest induction => exact congrArg (next watch · event) induction

theorem sparedBy_append {later earlier : List (Event α)} :
    aliases.sparedBy watch (later ++ earlier) = true ↔
      aliases.sparedBy watch earlier = true ∧
        (aliases.after watch earlier).sparedBy watch later = true := by
  induction later with
  | nil => simp [sparedBy]
  | cons event rest induction =>
      rw [List.cons_append, sparedBy, sparedBy, after_append, Bool.and_eq_true,
        Bool.and_eq_true, induction, and_assoc]

theorem after_noted (id : SolverId) (notes : List (Note α)) :
    aliases.after watch (notes.map (.noted id)) = aliases := by
  induction notes with
  | nil => rfl
  | cons note rest induction => exact induction

end Aliases

/-- The value that a hook was called with last, and how many solutions its
solver has written since. -/
structure Hearing where
  value : ℚ
  solves : Nat
  deriving DecidableEq

namespace Hearing

def next (watch : Watch) (hearing : Hearing) : Event ℚ → Hearing
  | .hookCalled solver target _ value =>
      if solver = watch.solver ∧ target = watch.id then ⟨value, 0⟩ else hearing
  | .noted solver note =>
      if solver = watch.solver ∧ note.isSolved = true then
        { hearing with solves := hearing.solves + 1 }
      else hearing
  | _ => hearing

/-- What a hook has heard after some events, latest event first. -/
def after (watch : Watch) (hearing : Hearing) : List (Event ℚ) → Hearing
  | [] => hearing
  | event :: older => (hearing.after watch older).next watch event

variable {watch : Watch} {hearing : Hearing}

theorem after_append (later earlier : List (Event ℚ)) :
    hearing.after watch (later ++ earlier) = (hearing.after watch earlier).after
      watch later := by
  induction later with
  | nil => rfl
  | cons event rest induction => exact congrArg (next watch · event) induction

theorem after_noted {id : SolverId} (same : id = watch.solver)
    (notes : List (Note ℚ)) :
    hearing.after watch (notes.map (.noted id)) =
      { hearing with
        solves := hearing.solves + notes.countP Note.isSolved } := by
  induction notes with
  | nil => rfl
  | cons note rest induction =>
      rw [List.map_cons, after, induction, next, List.countP_cons]
      cases note.isSolved with
      | true => rw [if_pos ⟨same, rfl⟩, if_pos rfl, Nat.add_assoc]
      | false =>
          rw [if_neg fun both => Bool.false_ne_true both.2,
            if_neg Bool.false_ne_true, Nat.add_zero]

theorem after_noted_of_ne {id : SolverId} (different : id ≠ watch.solver)
    (notes : List (Note ℚ)) :
    hearing.after watch (notes.map (.noted id)) = hearing := by
  induction notes with
  | nil => rfl
  | cons note rest induction =>
      rw [List.map_cons, after, induction, next, if_neg fun both =>
        different both.1]

end Hearing

/-- Whether the labels that stand for things of a watched variable are all
known. -/
structure Aliases.Covers (watch : Watch) (aliases : Aliases)
    (labels : Labels ℚ) :
    Prop where
  solvers (label : String)
    (bound : labels.solvers.get? label = some watch.solver) :
    label ∈ aliases.solvers
  unknowns (label : String)
    (bound : labels.unknowns.get? label = some ⟨watch.solver, watch.id⟩) :
    label ∈ aliases.unknowns
  subscriptions (label : String)
    (bound : labels.subscriptions.get? label =
      some ⟨watch.solver, watch.id, some watch.hook⟩) :
    label ∈ aliases.subscriptions

namespace Aliases.Covers

variable {watch : Watch} {aliases : Aliases} {labels before after : Labels ℚ}

theorem of_sameNames (covers : aliases.Covers watch before)
    (same : before.SameNames after) : aliases.Covers watch after :=
  ⟨same.solvers ▸ covers.solvers, same.unknowns ▸ covers.unknowns,
    same.subscriptions ▸ covers.subscriptions⟩

theorem mem_filter_of_put {β : Type} {table : Table String β}
    {names : List String} {mine value : β} {label name : String}
    (covers : ∀ name, table.get? name = some mine → name ∈ names)
    (different : value ≠ mine)
    (bound : (table.put label value).get? name = some mine) :
    name ∈ names.filter (· ≠ label) := by
  rw [Table.get?_put] at bound
  split at bound
  · exact absurd (Option.some.inj bound) different
  · next other =>
      exact List.mem_filter.mpr ⟨covers name bound, decide_eq_true other⟩

theorem dropSolver (covers : aliases.Covers watch labels) {label : String}
    {id : SolverId} (different : id ≠ watch.solver) :
    Aliases.Covers watch
      { aliases with solvers := aliases.solvers.filter (· ≠ label) }
      { labels with solvers := labels.solvers.put label id } :=
  ⟨fun _ => mem_filter_of_put covers.solvers different, covers.unknowns,
    covers.subscriptions⟩

theorem dropUnknown (covers : aliases.Covers watch labels) {label : String}
    {handle : VariableHandle} (different : handle ≠ ⟨watch.solver, watch.id⟩) :
    Aliases.Covers watch
      { aliases with unknowns := aliases.unknowns.filter (· ≠ label) }
      { labels with unknowns := labels.unknowns.put label handle } :=
  ⟨covers.solvers, fun _ => mem_filter_of_put covers.unknowns different,
    covers.subscriptions⟩

theorem addUnknown (covers : aliases.Covers watch labels) (label : String)
    (handle : VariableHandle) :
    Aliases.Covers watch { aliases with unknowns := label :: aliases.unknowns }
      { labels with unknowns := labels.unknowns.put label handle } := by
  refine ⟨covers.solvers, fun name bound => ?_, covers.subscriptions⟩
  rw [Table.get?_put] at bound
  split at bound
  · next same => exact same ▸ List.mem_cons_self
  · exact List.mem_cons_of_mem _ (covers.unknowns name bound)

theorem dropSubscription (covers : aliases.Covers watch labels) {label : String}
    {subscription : Subscription}
    (different : subscription ≠ ⟨watch.solver, watch.id, some watch.hook⟩) :
    (aliases.dropSubscription (some label)).Covers watch
      { labels with
        subscriptions := labels.subscriptions.put label subscription } :=
  ⟨covers.solvers, covers.unknowns,
    fun _ => mem_filter_of_put covers.subscriptions different⟩

end Aliases.Covers

namespace World

variable {watch : Watch} {tolerance : ℚ}

/-- The watched variable, as long as it is there, has its hook. -/
def Guards (watch : Watch) (tolerance : ℚ) (world : World ℚ) : Prop :=
  world.At watch.solver fun solver =>
    solver.settings.tolerance = some tolerance ∧
      watch.id < solver.nextVariable ∧ watch.hook < world.hooks.length ∧
      ∀ contents, solver.unknowns.get? watch.id = some contents →
        contents.hook = some watch.hook

def Tracks (watch : Watch) (tolerance : ℚ) (hearing : Hearing)
    (world : World ℚ) : Prop :=
  ∀ solver contents, world.solvers[watch.solver]? = some solver →
    solver.unknowns.get? watch.id = some contents →
      |hearing.value - contents.value| ≤ tolerance * hearing.solves

/-- Between two worlds, if nothing that has been carried out fails or meddles
with the watched variable, its hook stays and hears of it when it strays. What
the hook is `owed` it need not have heard before, and what it is still `owing`
afterwards. -/
def Follows (watch : Watch) (tolerance : ℚ) (owed : Prop)
    (before after : World ℚ) (owing : Prop) : Prop :=
  ∃ events, after.history = events ++ before.history ∧ ∀ aliases : Aliases,
    aliases.sparedBy watch events = true → aliases.Covers watch before.labels →
      before.Guards watch tolerance →
        (aliases.after watch events).Covers watch after.labels ∧
          after.Guards watch tolerance ∧ ∀ hearing : Hearing,
            owed ∨ before.Tracks watch tolerance hearing →
              owing ∨ after.Tracks watch tolerance (hearing.after watch events)

theorem Guards.of_listener {world : World ℚ}
    (guards : world.Guards watch tolerance) {solver : Solver ℚ}
    (found : world.solvers[watch.solver]? = some solver)
    (nobody : world.listener solver watch.id = none) :
    solver.unknowns.get? watch.id = none := by
  rcases guards.holds found with ⟨_, _, known, listens⟩
  cases present : solver.unknowns.get? watch.id with
  | none => rfl
  | some contents =>
      simp [listener, present, listens contents present, known] at nobody

namespace Follows

variable {world before middle after : World ℚ} {owed between owing : Prop}
  {id : SolverId} {command : Command ℚ} {outcome : Except (Failure ℚ) (Reply ℚ)}

theorem trans (left : Follows watch tolerance owed before middle between)
    (right : Follows watch tolerance between middle after owing) :
    Follows watch tolerance owed before after owing := by
  rcases left with ⟨earlier, isMiddle, left⟩
  rcases right with ⟨later, isAfter, right⟩
  refine ⟨later ++ earlier, by rw [isAfter, isMiddle, List.append_assoc], ?_⟩
  intro aliases spared covers guards
  rcases Aliases.sparedBy_append.mp spared with ⟨sparedEarlier, sparedLater⟩
  rcases left aliases sparedEarlier covers guards with
    ⟨coversMiddle, guardsMiddle, tracksMiddle⟩
  rcases right _ sparedLater coversMiddle guardsMiddle with
    ⟨coversAfter, guardsAfter, tracksAfter⟩
  rw [Aliases.after_append]
  refine ⟨coversAfter, guardsAfter, fun hearing heard => ?_⟩
  rw [Hearing.after_append]
  exact tracksAfter _ (tracksMiddle hearing heard)

theorem mono {more less : Prop}
    (follows : Follows watch tolerance more before after less)
    (fewer : owed → more) (weaker : less → owing) :
    Follows watch tolerance owed before after owing := by
  rcases follows with ⟨events, history, follows⟩
  refine ⟨events, history, fun aliases spared covers guards => ?_⟩
  rcases follows aliases spared covers guards with
    ⟨coversAfter, guardsAfter, tracks⟩
  exact ⟨coversAfter, guardsAfter, fun hearing heard =>
    (tracks hearing (heard.imp_left fewer)).imp_left weaker⟩

theorem frame (follows : Follows watch tolerance False before after False) :
    Follows watch tolerance owed before after owed := by
  rcases follows with ⟨events, history, follows⟩
  refine ⟨events, history, fun aliases spared covers guards => ?_⟩
  rcases follows aliases spared covers guards with
    ⟨coversAfter, guardsAfter, tracks⟩
  refine ⟨coversAfter, guardsAfter, fun hearing heard => ?_⟩
  rcases heard with isOwed | held
  · exact .inl isOwed
  · exact .inr ((tracks hearing (.inr held)).resolve_left id)

/-- What does not concern the watched variable. -/
theorem of_deaf (events : List (Event ℚ))
    (history : after.history = events ++ before.history)
    (deaf : ∀ hearing : Hearing, hearing.after watch events = hearing)
    (covers : ∀ aliases : Aliases, aliases.Covers watch before.labels →
      (aliases.after watch events).Covers watch after.labels)
    (guards : before.Guards watch tolerance → after.Guards watch tolerance)
    (values : ∀ solver contents, after.solvers[watch.solver]? = some solver →
      solver.unknowns.get? watch.id = some contents → ∃ former,
        before.solvers[watch.solver]? = some former ∧
          former.unknowns.get? watch.id = some contents) :
    Follows watch tolerance owed before after owed := by
  refine frame ⟨events, history, fun aliases _ covered held =>
    ⟨covers aliases covered, guards held, fun hearing heard => .inr ?_⟩⟩
  rw [deaf hearing]
  intro solver contents found present
  rcases values solver contents found present with ⟨former, isFormer, same⟩
  exact heard.resolve_left id former contents isFormer same

theorem of_same (events : List (Event ℚ))
    (history : after.history = events ++ before.history)
    (deaf : ∀ hearing : Hearing, hearing.after watch events = hearing)
    (solvers : after.solvers = before.solvers)
    (hooks : after.hooks = before.hooks)
    (covers : ∀ aliases : Aliases, aliases.Covers watch before.labels →
      (aliases.after watch events).Covers watch after.labels) :
    Follows watch tolerance owed before after owed := by
  refine of_deaf events history deaf covers (fun guards => ?_) ?_
  · rw [Guards, World.At, solvers, hooks]
    exact guards
  · intro solver contents found present
    exact ⟨solver, solvers ▸ found, present⟩

theorem refl (world : World ℚ) :
    Follows watch tolerance owed world world owed :=
  of_same [] rfl (fun _ => rfl) rfl rfl fun _ covers => covers

theorem of_guards
    (extended : ∃ events, after.history = events ++ before.history)
    (follows : before.Guards watch tolerance →
      Follows watch tolerance owed before after owing) :
    Follows watch tolerance owed before after owing := by
  by_cases guards : before.Guards watch tolerance
  · exact follows guards
  · rcases extended with ⟨events, history⟩
    exact ⟨events, history, fun _ _ _ guarded => absurd guarded guards⟩

theorem of_failed {cause : Failure ℚ}
    (earlier : ∃ events, middle.history = events ++ before.history)
    (later : ∃ events, after.history =
      events ++
        (middle.record (.commandEnded command (.error cause))).history) :
    Follows watch tolerance owed before after owing := by
  rcases earlier with ⟨earlier, isMiddle⟩
  rcases later with ⟨later, isAfter⟩
  refine ⟨later ++ .commandEnded command (.error cause) :: earlier, ?_, ?_⟩
  · rw [isAfter, World.record, isMiddle, List.append_assoc, List.cons_append]
  · intro aliases spared
    have upTo := (Aliases.sparedBy_append.mp spared).1
    cases (Bool.and_eq_true_iff.mp upTo).2

theorem of_meddling {notes : List (Note ℚ)}
    (history : middle.history = notes.map (.noted id) ++ before.history)
    (meddles : ∀ aliases : Aliases, aliases.Covers watch before.labels →
      command.spares aliases = false) :
    Follows watch tolerance owed before
      (middle.record (.commandEnded command outcome)) owing := by
  refine ⟨.commandEnded command outcome :: notes.map (.noted id), ?_, ?_⟩
  · rw [World.record, history, List.cons_append]
  · intro aliases spared covers
    have isSpared := (Bool.and_eq_true_iff.mp spared).2
    rw [Aliases.after_noted] at isSpared
    cases (meddles aliases covers).symm.trans
      (Bool.and_eq_true_iff.mp isSpared).2

theorem rebinds (rebinds : World.Rebinds False before after) :
    Follows watch tolerance owed before after owed :=
  of_same [] rebinds.history (fun _ => rfl) rebinds.solvers rebinds.hooks
    fun _ covers => covers.of_sameNames (rebinds.names not_false)

theorem record {event : Event ℚ}
    (deaf : ∀ hearing : Hearing, hearing.next watch event = hearing)
    (plain : ∀ aliases : Aliases, aliases.next watch event = aliases) :
    Follows watch tolerance owed world (world.record event) owed := by
  refine of_same [event] rfl deaf rfl rfl fun aliases covers => ?_
  rw [Aliases.after, plain]
  exact covers

theorem bound {labels : Labels ℚ}
    (covers : ∀ aliases : Aliases, aliases.Covers watch world.labels →
      (aliases.heed watch command).Covers watch labels) :
    Follows watch tolerance owed world
      (World.record { world with labels := labels }
        (.commandEnded command outcome))
      owed :=
  of_same [.commandEnded command outcome] rfl (fun _ => rfl) rfl rfl covers

theorem addSolver (settings : Settings ℚ) :
    Follows watch tolerance owed world (world.addSolver settings) owed := by
  refine of_deaf [] rfl (fun _ => rfl) (fun _ covers => covers)
    (fun guards => ?_) ?_
  · rcases guards with ⟨solver, found, slot⟩
    exact ⟨solver, getElem?_addSolver_of_some found, slot⟩
  · intro solver contents found present
    rcases getElem?_addSolver_cases found with old | rfl
    · exact ⟨solver, old, present⟩
    · cases present

theorem addHook (tag : String) (body : Script ℚ) :
    Follows watch tolerance owed world (world.addHook tag body) owed := by
  refine of_deaf [] rfl (fun _ => rfl) (fun _ covers => covers) ?_
    fun solver contents found present => ⟨solver, found, present⟩
  rintro ⟨solver, found, given, below, known, listens⟩
  refine ⟨solver, found, given, below, ?_, listens⟩
  rw [World.addHook, List.length_append]
  exact Nat.lt_add_right _ known

/-- Marks of a solver change, or its settings but for the tolerance. -/
theorem change {change : Solver ℚ → Solver ℚ}
    (same : id = watch.solver → ∀ solver : Solver ℚ,
      (change solver).settings.tolerance = solver.settings.tolerance ∧
        (change solver).unknowns = solver.unknowns ∧
        (change solver).nextVariable = solver.nextVariable) :
    Follows watch tolerance owed world (world.change id change) owed := by
  by_cases isWatched : id = watch.solver
  · refine of_deaf [] rfl (fun _ => rfl) (fun _ covers => covers) ?_ ?_
    · rintro ⟨solver, found, slot⟩
      rcases same isWatched solver with ⟨tolerance, unknowns, nextVariable⟩
      refine ⟨change solver, ?_, ?_⟩
      · rw [← isWatched] at found ⊢
        exact getElem?_change_self change found
      · simp only [tolerance, unknowns, nextVariable]
        exact slot
    · intro solver contents found present
      rw [getElem?_change, Option.map_eq_some_iff] at found
      rcases found with ⟨former, found, rfl⟩
      rw [if_pos isWatched, (same isWatched former).2.1] at present
      exact ⟨former, found, present⟩
  · have others := world.getElem?_change_of_ne change isWatched
    refine of_deaf [] rfl (fun _ => rfl) (fun _ covers => covers) ?_ ?_
    · rintro ⟨solver, found, slot⟩
      exact ⟨solver, others.trans found, slot⟩
    · intro solver contents found present
      exact ⟨solver, others.symm.trans found, present⟩

theorem setAuto (world : World ℚ) (id : SolverId) (autoSolve : Bool) :
    Follows watch tolerance owed world (world.change id fun solver =>
      solver.setAuto autoSolve) owed :=
  .change fun _ _ => ⟨rfl, rfl, rfl⟩

theorem mark {change : Solver ℚ → Solver ℚ}
    (same : ∀ solver : Solver ℚ, (change solver).settings = solver.settings ∧
      (change solver).unknowns = solver.unknowns ∧
      (change solver).nextVariable = solver.nextVariable) :
    Follows watch tolerance owed world (world.change id change) owed :=
  .change fun _ solver =>
    ⟨congrArg Settings.tolerance (same solver).1, (same solver).2⟩

theorem around {start finish : Solver ℚ → Solver ℚ}
    (inside : Follows watch tolerance owed (world.change id start) after owing)
    (starts : ∀ solver : Solver ℚ, (start solver).settings = solver.settings ∧
      (start solver).unknowns = solver.unknowns ∧
      (start solver).nextVariable = solver.nextVariable)
    (finishes : ∀ solver : Solver ℚ,
      (finish solver).settings = solver.settings ∧
      (finish solver).unknowns = solver.unknowns ∧
      (finish solver).nextVariable = solver.nextVariable) :
    Follows watch tolerance owed world (after.change id finish) owing :=
  (mark starts).trans (inside.trans (mark finishes))

theorem adopt_of_ne (draft : Draft ℚ) (different : id ≠ watch.solver) :
    Follows watch tolerance owed world (world.adopt id draft) owed := by
  have others :
      (world.adopt id draft).solvers[watch.solver]? =
        world.solvers[watch.solver]? :=
    getElem?_adopt_of_ne draft different
  refine of_deaf _ rfl (fun _ => Hearing.after_noted_of_ne different _)
    (fun aliases covers => ?_) ?_ ?_
  · rw [Aliases.after_noted]
    exact covers
  · rintro ⟨solver, found, slot⟩
    exact ⟨solver, others.trans found, slot⟩
  · intro solver contents found present
    exact ⟨solver, others.symm.trans found, present⟩

/-- An edit owes the hook of the watched variable what it announces. -/
theorem adopt_self {solver : Solver ℚ} {draft : Draft ℚ} {announced : Prop}
    (found : world.solvers[watch.solver]? = some solver)
    (trails : Draft.Trails watch.id announced ⟨solver, []⟩ draft) :
    Follows watch tolerance False world (world.adopt watch.solver draft)
      announced := by
  refine ⟨draft.notes.map (.noted watch.solver), rfl, ?_⟩
  intro aliases _ covers guards
  rcases trails.traced with ⟨notes, isNotes, traced⟩
  rw [List.append_nil] at isNotes
  have adopted := getElem?_adopt_self draft found
  rcases guards.holds found with ⟨given, below, known, listens⟩
  rw [Aliases.after_noted]
  refine ⟨covers,
    ⟨draft.solver, adopted, ?_, ?_, known, fun later present => ?_⟩, ?_⟩
  · rw [trails.settings]
    exact given
  · exact Int.lt_of_lt_of_le below (Int.ofNat_le.mpr trails.nextVariable)
  · rcases traced later below present with ⟨former, isFormer, sameHook, _⟩
    rw [sameHook]
    exact listens former isFormer
  · intro hearing heard
    by_cases tells : announced
    · exact .inl tells
    · have tracks := heard.resolve_left id
      refine .inr fun now later isNow present => ?_
      cases adopted.symm.trans isNow
      rcases traced later below present with ⟨former, isFormer, _, near⟩
      rw [Hearing.after_noted rfl, isNotes]
      have earlier := tracks solver former found isFormer
      have moved := near tells tolerance given
      calc |hearing.value - later.value|
          ≤ |hearing.value - former.value| + |former.value - later.value| :=
          abs_sub_le _ _ _
        _ ≤ tolerance *
          (hearing.solves + notes.countP Note.isSolved : Nat) := by
            rw [Nat.cast_add]
            linarith

theorem adopt {solver : Solver ℚ} {draft : Draft ℚ} {announced : Prop}
    (found : world.solvers[id]? = some solver)
    (trails : id = watch.solver →
      Draft.Trails watch.id announced ⟨solver, []⟩ draft) :
    Follows watch tolerance False world (world.adopt id draft)
      (id = watch.solver ∧ announced) := by
  by_cases isWatched : id = watch.solver
  · subst isWatched
    exact (adopt_self found (trails rfl)).mono (fun never => never) fun tells =>
      ⟨rfl, tells⟩
  · exact (adopt_of_ne draft isWatched).mono (fun never => never) False.elim

/-- The hook of the watched variable is called with the value that it has, so
that nothing is owed to it any more. -/
theorem hookCalled {solver : Solver ℚ} {hook : Hook ℚ} {value : ℚ}
    (found : world.solvers[watch.solver]? = some solver)
    (listens : world.listener solver watch.id = some (hook, value)) :
    Follows watch tolerance owed world
      (world.record (.hookCalled watch.solver watch.id hook.tag value))
        False := by
  refine ⟨[.hookCalled watch.solver watch.id hook.tag value], rfl,
    fun _ _ covers guards => ⟨covers, guards, fun hearing _ => .inr ?_⟩⟩
  intro same contents isSame present
  have isSolver : some solver = some same := found.symm.trans isSame
  cases isSolver
  have isValue : contents.value = value := by
    simp only [listener, present, Option.bind_eq_bind, Option.bind_some,
      Option.bind_eq_some_iff] at listens
    rcases listens with ⟨_, _, _, _, same⟩
    exact congrArg Prod.snd (Option.some.inj same)
  rw [Hearing.after, Hearing.after, Hearing.next, if_pos ⟨rfl, rfl⟩, isValue]
  simp

end Follows

end World

end LiveLinear
