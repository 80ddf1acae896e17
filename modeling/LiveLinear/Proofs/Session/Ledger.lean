import LiveLinear.Proofs.Session.Alterations
import LiveLinear.Proofs.Session.Solvers

namespace LiveLinear

/-! # The ledger of deferred work

The history of a world accounts for the work that its solvers put off: what is
taken up has been asked for before. -/

variable {α : Type}

namespace World

variable {before after : World α}

def workOf (world : World α) (id : SolverId) : Work α :=
  (world.solvers[id]?.map Solver.work).getD .none

def Accounts (before after : World α) : Prop :=
  ∃ events, after.history = events ++ before.history ∧
    ∀ id,
      (before.workOf id).Accounts (events.reverse.filterMap (Event.noteOf id))
        (after.workOf id)

namespace Accounts

variable {world before middle after : World α} {id : SolverId}

theorem refl (world : World α) : world.Accounts world :=
  ⟨[], rfl, fun _ => .refl _⟩

theorem of_like (like : before.Like after) : before.Accounts after := by
  refine ⟨[], like.history, fun id => ?_⟩
  simp only [workOf, like.solvers]
  exact .refl _

theorem trans (left : before.Accounts middle) (right : middle.Accounts after) :
    before.Accounts after := by
  rcases left with ⟨earlier, leftHistory, leftAccounts⟩
  rcases right with ⟨later, rightHistory, rightAccounts⟩
  refine ⟨later ++ earlier, ?_, fun id => ?_⟩
  · rw [rightHistory, leftHistory, List.append_assoc]
  · rw [List.reverse_append, List.filterMap_append]
    exact (leftAccounts id).trans (rightAccounts id)

theorem record {event : Event α} (noNote : ∀ id, event.noteOf id = none) :
    world.Accounts (world.record event) := by
  refine ⟨[event], rfl, fun id => ?_⟩
  simp only [List.reverse_singleton, List.filterMap_cons, List.filterMap_nil,
    noNote id]
  exact .refl _

theorem change {change : Solver α → Solver α}
    (less : ∀ solver, (change solver).deferred.Sublist solver.deferred ∧
      ((change solver).resolvePending = true → solver.resolvePending = true)) :
    world.Accounts (world.change id change) := by
  refine ⟨[], rfl, fun other => ?_⟩
  simp only [workOf, getElem?_change, List.reverse_nil, List.filterMap_nil]
  cases world.solvers[other]? with
  | none => exact .refl _
  | some solver =>
      apply Work.Accounts.of_sublist
      · simp
      · simp only [Option.map_some, Option.getD_some, Solver.work]
        split
        · exact (less solver).1
        · exact List.Sublist.refl _
      · simp only [Option.map_some, Option.getD_some, Solver.work]
        split
        · exact (less solver).2
        · exact fun pending => pending

theorem keep {change : Solver α → Solver α}
    (same : ∀ solver, (change solver).deferred = solver.deferred ∧
      (change solver).resolvePending = solver.resolvePending) :
    world.Accounts (world.change id change) := by
  apply Accounts.change
  intro solver
  rw [(same solver).1, (same solver).2]
  exact ⟨List.Sublist.refl _, fun pending => pending⟩

theorem addSolver {settings : Settings α} :
    world.Accounts (world.addSolver settings) := by
  refine ⟨[], rfl, fun id => ?_⟩
  have same : (world.addSolver settings).workOf id = world.workOf id := by
    unfold workOf
    cases present : world.solvers[id]? with
    | some solver => rw [getElem?_addSolver_of_some present]
    | none =>
        cases new : (world.addSolver settings).solvers[id]? with
        | none => rfl
        | some solver =>
            rcases getElem?_addSolver_cases new with old | rfl
            · rw [present] at old
              cases old
            · rfl
  rw [same]
  exact .refl _

theorem filterMap_noted_self (notes : List (Note α)) :
    (notes.map (Event.noted id)).filterMap (Event.noteOf id) = notes := by
  simp [List.filterMap_map, Function.comp_def, Event.noteOf]

theorem filterMap_noted_of_ne {other : SolverId} (different : id ≠ other)
    (notes : List (Note α)) :
    (notes.map (Event.noted id)).filterMap (Event.noteOf other) = [] := by
  simp [List.filterMap_map, Function.comp_def, Event.noteOf, different]

theorem adopt {solver : Solver α} {draft : Draft α}
    (found : world.solvers[id]? = some solver)
    (accounted : solver.work.Accounts draft.notes.reverse draft.solver.work) :
    world.Accounts (world.adopt id draft) := by
  refine ⟨draft.notes.map (.noted id), rfl, fun other => ?_⟩
  rw [← List.map_reverse]
  unfold workOf
  by_cases same : id = other
  · subst other
    rw [filterMap_noted_self, found, getElem?_adopt_self draft found]
    exact accounted
  · rw [filterMap_noted_of_ne same, getElem?_adopt_of_ne draft same]
    exact .refl _

theorem adopt_steady {solver : Solver α} {draft : Draft α}
    (found : world.solvers[id]? = some solver)
    (steady : Draft.Steady ⟨solver, []⟩ draft) :
    world.Accounts (world.adopt id draft) := by
  rcases steady.accounted with ⟨notes, isNotes, accounts⟩
  rw [List.append_nil] at isNotes
  rw [← isNotes] at accounts
  exact adopt found accounts

end Accounts

theorem Alters.accounts [Scalar α] (alters : before.Alters after) :
    before.Accounts after := by
  cases alters with
  | relabelled like => exact .of_like like
  | recorded unnoted => exact .record unnoted
  | founded => exact .addSolver
  | defined => exact ⟨[], rfl, fun _ => .refl _⟩
  | marked marks => exact .change marks.work
  | worked found yields =>
      exact .adopt_steady found (Task.edit_steady _ _ _ _ yields)
  | resumed found next yields =>
      exact .adopt found (Solver.takes_of_nextDeferred next yields).accounted

end World

/-- Whatever the activity, the history accounts for the work. -/
theorem Activity.RunsWith.accounts [Scalar α] {known : Activity.Calls _}
    {activity : Activity α} {before after : World α} {result : Ending α}
    (runs : activity.RunsWith known before result after) :
    before.Accounts after := by
  have kept : ∀ world next, World.Alters world next →
      before.Accounts world → before.Accounts next :=
    fun _ _ alters accounts => accounts.trans alters.accounts
  exact runs.carries kept (.refl before)

end LiveLinear
