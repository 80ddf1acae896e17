import LiveLinear.Proofs.Session.Solvers
import LiveLinear.Proofs.Solver.Pieces

namespace LiveLinear

/-! # Tame hooks

Hooks that make no solvers and set no cascade limits. If all hooks are tame,
there are no more solvers and no other limits than commands outside of hooks ask
for. -/

variable {α : Type}

/-! ## What commands ask for -/

def SettingChange.limit? : SettingChange α → Option Int
  | .cascadeLimit value => some value
  | .autoSolve _ | .refusesContradiction _ | .tolerance _ => none

def Operation.limit? : Operation α → Option Int
  | .newSolver _ _ _ _ cascadeLimit => some cascadeLimit
  | .change _ setting => setting.limit?
  | _ => none

/-- How many solvers an operation makes. -/
def Operation.founds : Operation α → Nat
  | .newSolver .. => 1
  | _ => 0

mutual

/-- Whether a command makes no solver and sets no cascade limit, nor any hook
that it brings. -/
def Command.isTame : Command α → Bool
  | .operation operation => operation.limit?.isNone
  | .batch _ body | .defineHook _ body | .observeInline _ body _ => body.isTame
  | .observe .. => true

def Script.isTame : Script α → Bool
  | .done => true
  | .next command _ rest => command.isTame && rest.isTame

end

mutual

/-- How many solvers a command makes, at most. -/
def Command.founds : Command α → Nat
  | .operation operation => operation.founds
  | .batch _ body => body.founds
  | .defineHook .. | .observe .. | .observeInline .. => 0

def Script.founds : Script α → Nat
  | .done => 0
  | .next command _ rest => command.founds + rest.founds

end

mutual

def Command.Allows (allowed : SolverId → Int → Prop) : Command α → Prop
  | .operation operation => ∀ limit ∈ operation.limit?, ∀ id, allowed id limit
  | .batch _ body => body.Allows allowed
  | .defineHook _ body | .observeInline _ body _ => body.isTame = true
  | .observe .. => True

def Script.Allows (allowed : SolverId → Int → Prop) : Script α → Prop
  | .done => True
  | .next command _ rest => command.Allows allowed ∧ rest.Allows allowed

end

theorem Operation.founds_of_tame {operation : Operation α}
    (tame : operation.limit? = none) :
    operation.founds = 0 := by
  cases operation with
  | newSolver => cases tame
  | _ => rfl

mutual

theorem Command.founds_of_tame (command : Command α)
    (tame : command.isTame = true) :
    command.founds = 0 := by
  cases command with
  | operation operation =>
      simp only [Command.isTame, Option.isNone_iff_eq_none] at tame
      exact operation.founds_of_tame tame
  | batch name body =>
      simp only [Command.isTame] at tame
      simp only [Command.founds, body.founds_of_tame tame]
  | defineHook | observe | observeInline => simp only [Command.founds]
termination_by structural command

theorem Script.founds_of_tame (script : Script α)
    (tame : script.isTame = true) :
    script.founds = 0 := by
  cases script with
  | done => simp only [Script.founds]
  | next command guarded rest =>
      simp only [Script.isTame, Bool.and_eq_true] at tame
      simp only [Script.founds, command.founds_of_tame tame.1,
        rest.founds_of_tame tame.2]
termination_by structural script

end

mutual

theorem Command.allows_of_tame (allowed : SolverId → Int → Prop)
    (command : Command α) (tame : command.isTame = true) :
    command.Allows allowed := by
  cases command with
  | operation operation =>
      simp only [Command.isTame, Option.isNone_iff_eq_none] at tame
      simp [Command.Allows, tame]
  | batch name body =>
      simp only [Command.isTame] at tame
      simpa only [Command.Allows] using body.allows_of_tame allowed tame
  | defineHook | observeInline =>
      simp only [Command.isTame] at tame
      simpa only [Command.Allows] using tame
  | observe => simp only [Command.Allows]
termination_by structural command

theorem Script.allows_of_tame (allowed : SolverId → Int → Prop)
    (script : Script α) (tame : script.isTame = true) :
    script.Allows allowed := by
  cases script with
  | done => simp only [Script.Allows]
  | next command guarded rest =>
      simp only [Script.isTame, Bool.and_eq_true] at tame
      simp only [Script.Allows]
      exact ⟨command.allows_of_tame allowed tame.1,
        rest.allows_of_tame allowed tame.2⟩
termination_by structural script

end

/-- Whether all hooks that a command brings are tame, whatever limits it sets
itself. -/
def Command.BringsTame (command : Command α) : Prop :=
  command.Allows fun _ _ => True

mutual

/-- The limits that a command sets are all below some bound. -/
theorem Command.exists_bound (command : Command α)
    (tame : command.Allows fun _ _ => True) :
    ∃ least : Nat, ∀ bound : Nat, least ≤ bound → command.Allows fun _ limit =>
      limit < bound := by
  cases command with
  | operation operation =>
      cases sets : operation.limit? with
      | none => exact ⟨0, fun bound _ => by simp [Command.Allows, sets]⟩
      | some limit =>
          refine ⟨limit.toNat + 1, fun bound enough => ?_⟩
          simp only [Command.Allows, sets, Option.mem_some_iff, forall_eq']
          omega
  | batch name body =>
      simp only [Command.Allows] at tame ⊢
      exact body.exists_bound tame
  | defineHook | observeInline =>
      simp only [Command.Allows] at tame ⊢
      exact ⟨0, fun _ _ => tame⟩
  | observe => exact ⟨0, fun _ _ => by simp only [Command.Allows]⟩
termination_by structural command

theorem Script.exists_bound (script : Script α)
    (tame : script.Allows fun _ _ => True) :
    ∃ least : Nat, ∀ bound : Nat, least ≤ bound → script.Allows fun _ limit =>
      limit < bound := by
  cases script with
  | done => exact ⟨0, fun _ _ => by simp only [Script.Allows]⟩
  | next command guarded rest =>
      simp only [Script.Allows] at tame ⊢
      rcases command.exists_bound tame.1 with ⟨first, allowsFirst⟩
      rcases rest.exists_bound tame.2 with ⟨second, allowsSecond⟩
      refine ⟨first + second, fun bound enough =>
        ⟨allowsFirst bound ?_, allowsSecond bound ?_⟩⟩
      · omega
      · omega
termination_by structural script

end

theorem Command.exists_common_bound (commands : List (Command α))
    (tame : ∀ command ∈ commands, command.BringsTame) :
    ∃ least : Nat, ∀ bound : Nat, least ≤ bound → ∀ command ∈ commands,
      command.Allows fun _ limit => limit < bound := by
  induction commands with
  | nil => exact ⟨0, fun _ _ _ impossible => by cases impossible⟩
  | cons command rest induction =>
      simp only [List.mem_cons, forall_eq_or_imp] at tame ⊢
      rcases command.exists_bound tame.1 with ⟨first, allowsFirst⟩
      rcases induction tame.2 with ⟨second, allowsSecond⟩
      refine ⟨first + second, fun bound enough =>
        ⟨allowsFirst bound ?_, allowsSecond bound ?_⟩⟩
      · omega
      · omega

/-! ## Worlds of tame hooks -/

structure World.Obeys (allowed : SolverId → Int → Prop) (world : World α) :
    Prop where
  hooks : ∀ hook ∈ world.hooks, hook.body.isTame = true
  limits : world.Each fun id solver => allowed id solver.settings.cascadeLimit

theorem World.obeys_empty (allowed : SolverId → Int → Prop) :
    (World.empty : World α).Obeys allowed := by
  constructor
  · intro hook impossible
    cases impossible
  · intro id solver impossible
    cases impossible

theorem World.Obeys.of_like {allowed : SolverId → Int → Prop}
    {before after : World α} (obeys : before.Obeys allowed)
    (like : before.Like after) : after.Obeys allowed := by
  constructor
  · rw [like.hooks]
    exact obeys.hooks
  · exact World.Each.of_like obeys.limits like

def World.Keeps (allowed : SolverId → Int → Prop) (count : Nat)
    (before after : World α) : Prop :=
  before.Obeys allowed →
    after.Obeys allowed ∧ after.solvers.length ≤ before.solvers.length + count

namespace World.Keeps

variable {allowed : SolverId → Int → Prop}
  {world before middle after start final : World α} {id : SolverId}
  {count first second : Nat}

theorem of_like (keeps : start.Keeps allowed count final)
    (ready : before.Like start) (done : final.Like after) :
    before.Keeps allowed count after := by
  intro obeys
  rcases keeps (obeys.of_like ready) with ⟨ended, fewer⟩
  refine ⟨ended.of_like done, ?_⟩
  rw [done.solvers, ← ready.solvers]
  exact fewer

theorem refl (world : World α) : world.Keeps allowed count world :=
  fun obeys => ⟨obeys, Nat.le_add_right _ _⟩

theorem trans (left : before.Keeps allowed first middle)
    (right : middle.Keeps allowed second after) :
    before.Keeps allowed (first + second) after := by
  intro obeys
  rcases left obeys with ⟨between, fewer⟩
  rcases right between with ⟨ended, fewerThen⟩
  exact ⟨ended, by omega⟩

theorem relax (keeps : before.Keeps allowed first after)
    (least : first ≤ count) :
    before.Keeps allowed count after := by
  intro obeys
  rcases keeps obeys with ⟨ended, fewer⟩
  exact ⟨ended, by omega⟩

theorem record (world : World α) (event : Event α) :
    world.Keeps allowed 0 (world.record event) :=
  fun obeys => ⟨⟨obeys.hooks, obeys.limits⟩, Nat.le_refl _⟩

theorem change {change : Solver α → Solver α}
    (changed : ∀ solver : Solver α, allowed id solver.settings.cascadeLimit →
      allowed id (change solver).settings.cascadeLimit) :
    world.Keeps allowed 0 (world.change id change) := by
  intro obeys
  refine ⟨⟨obeys.hooks, ?_⟩, ?_⟩
  · exact World.Each.change obeys.limits (fun _ _ _ holds => holds)
      fun solver _ holds => changed solver holds
  · rw [World.change, List.length_modify]
    exact Nat.le_refl _

theorem mark {change : Solver α → Solver α}
    (same : ∀ solver : Solver α,
      (change solver).settings.cascadeLimit = solver.settings.cascadeLimit) :
    world.Keeps allowed 0 (world.change id change) := by
  refine World.Keeps.change fun solver holds => ?_
  rw [same solver]
  exact holds

theorem around {start close : Solver α → Solver α}
    (between : (before.change id start).Keeps allowed count after)
    (starts : ∀ solver : Solver α,
      (start solver).settings.cascadeLimit = solver.settings.cascadeLimit)
    (closes : ∀ solver : Solver α,
      (close solver).settings.cascadeLimit = solver.settings.cascadeLimit) :
    before.Keeps allowed count (after.change id close) := by
  have begins : before.Keeps allowed 0 (before.change id start) := mark starts
  have ends : after.Keeps allowed 0 (after.change id close) := mark closes
  exact ((begins.trans between).trans ends).relax (by omega)

theorem round {targets : List VariableId} {close : Solver α → Solver α}
    (calls :
      World.Keeps allowed 0
        ((before.record (.roundBegan id targets)).change id fun solver =>
          { solver with dispatching := true }) after)
    (closes : ∀ solver : Solver α,
      (close solver).settings.cascadeLimit = solver.settings.cascadeLimit) :
    before.Keeps allowed 0
      ((after.change id close).record (.roundEnded id)) := by
  have begins :
    before.Keeps allowed 0 (before.record (.roundBegan id targets)) :=
    record _ _
  exact (begins.trans (calls.around (fun _ => rfl) closes)).trans (record _ _)

theorem adopt {solver : Solver α} {draft : Draft α}
    (found : world.solvers[id]? = some solver)
    (same : draft.solver.settings = solver.settings) :
    world.Keeps allowed 0 (world.adopt id draft) := by
  intro obeys
  refine ⟨⟨obeys.hooks, ?_⟩, ?_⟩
  · refine World.Each.adopt obeys.limits found (fun _ _ _ holds => holds)
      fun holds => ?_
    rw [same]
    exact holds
  · rw [World.adopt, List.length_set]
    exact Nat.le_refl _

theorem addHook {tag : String} {body : Script α} (tame : body.isTame = true) :
    world.Keeps allowed 0 (world.addHook tag body) := by
  intro obeys
  refine ⟨⟨?_, obeys.limits⟩, Nat.le_refl _⟩
  intro hook member
  rcases List.mem_append.mp member with present | new
  · exact obeys.hooks hook present
  · rw [List.mem_singleton.mp new]
    exact tame

theorem addSolver {settings : Settings α}
    (within : ∀ id, allowed id settings.cascadeLimit) :
    world.Keeps allowed 1 (world.addSolver settings) := by
  intro obeys
  refine ⟨⟨obeys.hooks, ?_⟩, ?_⟩
  · exact World.Each.addSolver obeys.limits fun id => within id
  · rw [World.addSolver, List.length_append]
    exact Nat.le_refl _

end World.Keeps

def Activity.Allows (allowed : SolverId → Int → Prop) : Activity α → Prop
  | .command _ given => given.Allows allowed
  | .script _ body => body.Allows allowed
  | .task _ _ | .announcement _ _ | .round _ _ | .calls _ _ | .settlement _
      | .drain _ _ => True

def Activity.founds : Activity α → Nat
  | .command _ given => given.founds
  | .script _ body => body.founds
  | .task _ _ | .announcement _ _ | .round _ _ | .calls _ _ | .settlement _
      | .drain _ _ => 0

/-- Hooks are called and their scripts run with all limits as they are allowed
to be. -/
theorem Activity.RunsWith.keeps [Scalar α] {known : Activity.Calls _}
    {allowed : SolverId → Int → Prop} {activity : Activity α}
    {before after : World α} {result : Ending α}
    (runs : activity.RunsWith known before result after) :
    activity.Allows allowed → before.Keeps allowed activity.founds after := by
  have calling : ∀ {world middle : World α} {solver : Solver α}
      {target : VariableId} {hook : Hook α} {value : α} {event : Event α},
      world.listener solver target = some (hook, value) →
      ((Activity.script (some value) hook.body).Allows allowed →
        (world.record event).Keeps allowed hook.body.founds middle) →
      world.Keeps allowed 0 middle := by
    intro world middle solver target hook value event listens called obeys
    have tame := obeys.hooks hook (World.mem_hooks_of_listener listens)
    have keeps := called (hook.body.allows_of_tame allowed tame)
    rw [hook.body.founds_of_tame tame] at keeps
    exact ((World.Keeps.record world event).trans keeps) obeys
  induction runs with
  | relabelled ready _ done induction =>
      exact fun allows => (induction allows).of_like ready done
  | atOnce =>
      exact fun _ => .refl _
  | founded founds =>
      intro allows
      rcases founds.asked with ⟨label, operand, rfl, _⟩
      exact .addSolver (allows _ rfl)
  | changed makes =>
      intro allows
      refine World.Keeps.relax (.change fun solver holds => ?_) (Nat.zero_le _)
      cases makes with
      | cascadeLimit => exact allows _ rfl _
      | autoSolve | refusesContradiction | tolerance => exact holds
  | asked _ _ induction =>
      exact fun _ => (induction trivial).relax (Nat.zero_le _)
  | defined =>
      exact fun tame => (World.Keeps.addHook tame).relax (Nat.zero_le _)
  | observed _ induction =>
      exact fun tame =>
        ((World.Keeps.addHook tame).trans (induction trivial)).relax
          (Nat.zero_le _)
  | batched _ _ _ induction =>
      exact fun allows => (induction allows).around (fun _ => rfl) fun _ => rfl
  | batchSolved _ _ _ _ ran solved =>
      intro allows
      have solving : World.Keeps allowed 0 _ _ := solved trivial
      refine World.Keeps.relax
        (((ran allows).around (fun _ => rfl) ?_).trans solving) ?_
      · exact fun _ => rfl
      · exact Nat.le_refl _
  | stopped _ _ induction =>
      intro allows
      exact ((induction allows.1).trans (.record _ _)).relax
        (by simp [founds, Script.founds])
  | continued _ _ _ first later =>
      intro allows
      exact (((first allows.1).trans (.record _ _)).trans
        (later allows.2)).relax (by simp [founds, Script.founds])
  | taskFailed found yields =>
      exact fun _ => .adopt found (Task.edit_steady _ _ _ _ yields).settings
  | taskDone found yields _ induction =>
      exact fun _ =>
        (World.Keeps.adopt found
          (Task.edit_steady _ _ _ _ yields).settings).trans (induction trivial)
  | unannounced _ _ round => exact round
  | announced _ _ _ round settled =>
      exact fun _ => (round trivial).trans (settled trivial)
  | roundHeld _ _ calls | roundBroken _ _ calls =>
      exact fun _ => (calls trivial).round fun _ => rfl
  | callSkipped _ _ _ later => exact later
  | callFailed _ listens _ _ call => exact fun _ => calling listens call
  | called _ listens _ _ _ call later =>
      exact fun _ =>
        ((calling listens call).trans (.record _ _)).trans (later trivial)
  | settled _ _ _ drains | unsettled _ _ _ drains =>
      exact fun _ => (drains trivial).around (fun _ => rfl) fun _ => rfl
  | drainFailed found next _ yields =>
      exact fun _ =>
        .adopt found (Solver.takes_of_nextDeferred next yields).settings
  | drainBroken found next _ yields _ round =>
      exact fun _ => (World.Keeps.adopt found
        (Solver.takes_of_nextDeferred next yields).settings).trans
        (round trivial)
  | drainContinued found next _ yields _ _ round later =>
      exact fun _ => ((World.Keeps.adopt found
        (Solver.takes_of_nextDeferred next yields).settings).trans
        (round trivial)).trans
          (later trivial)

end LiveLinear
