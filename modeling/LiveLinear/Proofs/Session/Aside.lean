import LiveLinear.Proofs.Session.Activity

namespace LiveLinear

/-! # Actions aside

Actions that only look at a world or bind labels, among them all that computes
the numbers and looks up the labels in a command. -/

variable {α β γ : Type}

/-! ## Looking -/

namespace Action

def Reads (action : Action α β) : Prop :=
  ∀ before, ∃ result, action.Yields before result before

namespace Reads

theorem same {action : Action α β} {before after : World α}
    {result : Except (Failure α) β} (reads : Reads action)
    (yields : action.Yields before result after) : after = before := by
  rcases reads before with ⟨other, same⟩
  exact (same.unique yields).2

theorem pure (value : β) : Reads (Pure.pure value : Action α β) :=
  fun _ => ⟨_, yields_pure.mpr ⟨rfl, rfl⟩⟩

theorem throw (failure : Failure α) : Reads (throw failure : Action α β) :=
  fun _ => ⟨_, yields_throw.mpr ⟨rfl, rfl⟩⟩

theorem get : Reads (get : Action α (World α)) :=
  fun _ => ⟨_, yields_get.mpr ⟨rfl, rfl⟩⟩

theorem ofOutcome (outcome : Except (Failure α) β) :
    Reads (ofOutcome outcome) :=
  fun _ => ⟨outcome, yields_ofOutcome.mpr ⟨rfl, rfl⟩⟩

theorem bind {action : Action α β} {next : β → Action α γ}
    (first : Reads action) (later : ∀ value, Reads (next value)) :
    Reads (action >>= next) := by
  intro before
  rcases first before with ⟨result, yields⟩
  cases result with
  | error failure => exact ⟨_, yields_bind.mpr (.inl ⟨failure, yields, rfl⟩)⟩
  | ok value =>
      rcases later value before with ⟨final, rest⟩
      exact ⟨final, (yields_bind_of_ok yields).mpr rest⟩

theorem solver (id : SolverId) : Reads (solver id : Action α (Solver α)) := by
  refine bind get fun world => ?_
  split
  · exact pure _
  · exact throw _

theorem consult (id : SolverId) (question : Solver α → Except (Failure α) β) :
    Reads (consult id question) :=
  bind (solver id) fun _ => ofOutcome _

theorem lookUp (table : Labels α → Table String β) (label : String) :
    Reads (lookUp table label) := by
  refine bind get fun world => ?_
  split
  · exact pure _
  · exact throw _

theorem resolve (target : Target) :
    Reads (resolve target : Action α Argument) := by
  cases target with
  | label name => exact bind (lookUp _ _) fun _ => pure _
  | foreign value => exact pure _

theorem resolveAll (targets : List (Target × Operand α)) :
    Reads (resolveAll targets) := by
  induction targets with
  | nil => exact pure _
  | cons first rest induction =>
      exact bind (resolve _) fun _ => bind induction fun _ => pure _

theorem dereference (reference : Reference) :
    Reads (dereference reference : Action α Referent) := by
  cases reference with
  | ofVariable label => exact bind (lookUp _ _) fun _ => pure _
  | ofConstraint label => exact bind (lookUp _ _) fun _ => pure _
  | foreign value => exact pure _

theorem dereferenceAll (references : List Reference) :
    Reads (dereferenceAll references : Action α (List Referent)) := by
  induction references with
  | nil => exact pure _
  | cons reference rest induction =>
      refine bind (dereference reference) fun referent => ?_
      have later : Reads (do
          return referent :: (← Action.dereferenceAll rest) :
          Action α (List Referent)) :=
        bind induction fun _ => pure _
      split
      · split
        · exact bind (throw _) fun _ => later
        · exact later
      · exact later

theorem isActive (subscription : Subscription) :
    Reads (isActive subscription : Action α Bool) :=
  bind (solver _) fun _ => pure _

variable [Scalar α]

theorem evaluate (context : Option α) (operand : Operand α) :
    Reads (evaluate context operand) := by
  unfold Action.evaluate
  split
  · exact pure _
  · exact bind (lookUp _ _) fun _ => bind (consult _ _) fun _ => pure _
  · split
    · exact pure _
    · exact throw _

theorem collectTerms (context : Option α)
    (targets : List (Argument × Operand α)) :
    ∀ pairs, Reads (collectTerms context pairs targets) := by
  induction targets with
  | nil => exact fun pairs => pure pairs
  | cons first rest induction =>
      intro pairs
      refine bind (evaluate context _) fun value => ?_
      dsimp only
      split
      · split
        · exact bind (throw _) fun _ => induction _
        · exact induction _
      · exact induction _

end Reads

/-! ## Binding labels -/

end Action

structure Labels.SameNames (before after : Labels α) : Prop where
  solvers : after.solvers = before.solvers
  unknowns : after.unknowns = before.unknowns
  subscriptions : after.subscriptions = before.subscriptions

namespace Labels.SameNames

theorem refl (labels : Labels α) : labels.SameNames labels :=
  ⟨rfl, rfl, rfl⟩

theorem trans {before middle after : Labels α} (left : before.SameNames middle)
    (right : middle.SameNames after) : before.SameNames after :=
  ⟨right.solvers.trans left.solvers, right.unknowns.trans left.unknowns,
    right.subscriptions.trans left.subscriptions⟩

end Labels.SameNames

structure World.Rebinds (free : Prop) (before after : World α) : Prop
    extends before.Like after where
  names : ¬free → before.labels.SameNames after.labels

namespace World.Rebinds

variable {free : Prop}

theorem refl (world : World α) : world.Rebinds free world :=
  ⟨.refl world, fun _ => .refl world.labels⟩

theorem trans {before middle after : World α}
    (left : before.Rebinds free middle) (right : middle.Rebinds free after) :
    before.Rebinds free after :=
  ⟨left.toLike.trans right.toLike, fun bound =>
    (left.names bound).trans (right.names bound)⟩

end World.Rebinds

namespace Action

variable {free : Prop}

def Aside (free : Prop) (action : Action α β) : Prop :=
  ∀ before, ∃ result after, action.Yields before result after ∧
    before.Rebinds free after

theorem Reads.aside {action : Action α β} (reads : Reads action) :
    Aside free action := by
  intro before
  rcases reads before with ⟨result, yields⟩
  exact ⟨result, before, yields, .refl before⟩

namespace Aside

theorem rebinds {action : Action α β} {before after : World α}
    {result : Except (Failure α) β} (quiet : Aside free action)
    (yields : action.Yields before result after) :
    before.Rebinds free after := by
  rcases quiet before with ⟨other, final, same, rebinds⟩
  rw [(same.unique yields).2]
  exact rebinds

theorem like {action : Action α β} {before after : World α}
    {result : Except (Failure α) β} (quiet : Aside free action)
    (yields : action.Yields before result after) :
    before.Like after :=
  (quiet.rebinds yields).toLike

theorem pure (value : β) : Aside free (Pure.pure value : Action α β) :=
  (Reads.pure value).aside

theorem bind {action : Action α β} {next : β → Action α γ}
    (first : Aside free action) (later : ∀ value, Aside free (next value)) :
    Aside free (action >>= next) := by
  intro before
  rcases first before with ⟨result, middle, yields, rebinds⟩
  cases result with
  | error failure =>
      exact ⟨_, middle, yields_bind.mpr (.inl ⟨failure, yields, rfl⟩), rebinds⟩
  | ok value =>
      rcases later value middle with ⟨final, after, rest, rebindsAfter⟩
      exact ⟨final, after, (yields_bind_of_ok yields).mpr rest,
        rebinds.trans rebindsAfter⟩

theorem throw (failure : Failure α) : Aside free (throw failure : Action α β) :=
  (Reads.throw failure).aside

theorem solver (id : SolverId) : Aside free (solver id : Action α (Solver α)) :=
  (Reads.solver id).aside

theorem consult (id : SolverId) (question : Solver α → Except (Failure α) β) :
    Aside free (consult id question) :=
  (Reads.consult id question).aside

theorem lookUp (table : Labels α → Table String β) (label : String) :
    Aside free (lookUp table label) :=
  (Reads.lookUp table label).aside

end Aside

def Closes (free : Prop) (action : Action α β) : Prop :=
  ∀ before, ∃ value after, action.Yields before (.ok value) after ∧
    before.Rebinds free after

namespace Closes

theorem aside {action : Action α β} (closes : Closes free action) :
    Aside free action := by
  intro before
  rcases closes before with ⟨value, after, yields, rebinds⟩
  exact ⟨.ok value, after, yields, rebinds⟩

theorem like {action : Action α β} {before after : World α}
    {result : Except (Failure α) β} (closes : Closes free action)
    (yields : action.Yields before result after) :
    (∃ value, result = .ok value) ∧ before.Like after := by
  rcases closes before with ⟨value, final, same, rebinds⟩
  rcases same.unique yields with ⟨rfl, rfl⟩
  exact ⟨⟨value, rfl⟩, rebinds.toLike⟩

theorem pure (value : β) : Closes free (Pure.pure value : Action α β) :=
  fun before => ⟨value, before, yields_pure.mpr ⟨rfl, rfl⟩, .refl before⟩

theorem relabel (change : Labels α → Labels α)
    (names : ¬free → ∀ labels : Labels α, labels.SameNames (change labels)) :
    Closes free (relabel change) :=
  fun before => ⟨(), _, yields_relabel.mpr ⟨rfl, rfl⟩,
    ⟨.relabel before _, fun bound => names bound before.labels⟩⟩

theorem bind {action : Action α β} {next : β → Action α γ}
    (first : Closes free action) (later : ∀ value, Closes free (next value)) :
    Closes free (action >>= next) := by
  intro before
  rcases first before with ⟨value, middle, yields, rebinds⟩
  rcases later value middle with ⟨final, after, rest, rebindsAfter⟩
  exact ⟨final, after, (yields_bind_of_ok yields).mpr rest,
    rebinds.trans rebindsAfter⟩

theorem naming (change : Labels α → Labels α) (isFree : free) :
    Closes free (Action.relabel change) :=
  relabel change fun bound => absurd isFree bound

theorem bindConstraint (label : Option String) (handle : ConstraintHandle) :
    Closes free (bindConstraint label handle : Action α Unit) := by
  cases label with
  | none => exact pure ()
  | some label =>
      simp only [Action.bindConstraint]
      exact relabel _ fun _ _ => ⟨rfl, rfl, rfl⟩

theorem bindBuilder (label : String) (builder : Builder α) :
    Closes free (bindBuilder label builder : Action α Unit) :=
  relabel _ fun _ _ => ⟨rfl, rfl, rfl⟩

theorem bindHook (label : String) (id : HookId) :
    Closes free (bindHook label id : Action α Unit) :=
  relabel _ fun _ _ => ⟨rfl, rfl, rfl⟩

theorem bindingConstraint (free : Prop) (label : Option String)
    (handle : ConstraintHandle) (reply : Reply α) : Closes free (do
      Action.bindConstraint label handle
      return reply : Action α (Reply α)) :=
  bind (bindConstraint label handle) fun _ => pure reply

theorem bindSubscription (label : Option String) (subscription : Subscription)
    (isFree : free) :
    Closes free (bindSubscription label subscription : Action α Unit) := by
  cases label with
  | none => exact pure ()
  | some label =>
      simp only [Action.bindSubscription]
      exact naming _ isFree

end Closes

end Action

end LiveLinear
