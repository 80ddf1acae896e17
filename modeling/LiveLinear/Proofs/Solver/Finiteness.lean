import LiveLinear.Proofs.Solver.Unassembled
import LiveLinear.Proofs.Solver.Upkeep

namespace LiveLinear

/-! # Finite numbers in equations

Every number that is given to a solver is checked before it is stored. The
numbers that the solver computes by itself and stores in a constraint are not:
the sum of two coefficients, and the value at which a variable is pinned.
Nothing else makes an equation with a number that is not finite. -/

/-- The numbers that a solver writes into equations of its own accord are
finite. -/
class FiniteUnits (α : Type) [Scalar α] : Prop where
  zero : Scalar.isFinite (0 : α) = true
  one : Scalar.isFinite (1 : α) = true

instance : FiniteUnits Float :=
  ⟨by decide +kernel, by decide +kernel⟩

variable {α : Type}

namespace Solver

variable {solver : Solver α} {id : VariableId} {contents : Variable α}

theorem get?_release_self (found : solver.unknowns.get? id = some contents) :
    (solver.release id).unknowns.get? id =
      some { contents with lock := none } := by
  rcases contents with ⟨name, value, _ | held, hook⟩
  · rw [release, found]
    exact found
  · rw [release, found]
    exact get?_modifyVariable found _

theorem get?_release_storeValue
    (found : solver.unknowns.get? id = some contents) (value : α) :
    ((solver.storeValue id value).release id).unknowns.get? id =
      some { contents with value, lock := none } :=
  get?_release_self (get?_modifyVariable found _)

end Solver

variable [Scalar α]

structure Constraint.IsFinite (constraint : Constraint α) : Prop where
  sum : Scalar.isFinite constraint.sum = true
  terms : ∀ coefficient ∈ constraint.terms.values,
    Scalar.isFinite coefficient = true

instance (constraint : Constraint α) : Decidable constraint.IsFinite :=
  decidable_of_iff (Scalar.isFinite constraint.sum = true ∧
      ∀ coefficient ∈ constraint.terms.values,
      Scalar.isFinite coefficient = true)
    ⟨fun both => ⟨both.1, both.2⟩, fun isFinite =>
      ⟨isFinite.sum, isFinite.terms⟩⟩

namespace Constraint.IsFinite

variable {constraint : Constraint α}

theorem put (isFinite : constraint.IsFinite) (id : VariableId) {coefficient : α}
    (number : Scalar.isFinite coefficient = true) :
    { constraint with
      terms := constraint.terms.put id coefficient }.IsFinite := by
  refine ⟨isFinite.sum, fun other member => ?_⟩
  rcases Table.mem_values_put member with old | rfl
  · exact isFinite.terms other old
  · exact number

theorem erase (isFinite : constraint.IsFinite) (id : VariableId) :
    { constraint with terms := constraint.terms.erase id }.IsFinite :=
  ⟨isFinite.sum, fun other member =>
    isFinite.terms other ((Table.values_erase_sublist _ _).subset member)⟩

theorem pinning [FiniteUnits α] (id : VariableId) {value : α}
    (number : Scalar.isFinite value = true) :
    (Constraint.pinning id value).IsFinite := by
  refine ⟨number, fun coefficient member => ?_⟩
  rw [List.mem_singleton.mp (member : coefficient ∈ [1])]
  exact FiniteUnits.one

end Constraint.IsFinite

theorem isFinite_of_finite {quantity : Quantity} {given : Option α} {number : α}
    (checked : finite quantity given = .ok number) :
    Scalar.isFinite number = true := by
  unfold finite at checked
  split at checked
  · cases checked
  · split at checked
    · next isFinite =>
        cases checked
        exact isFinite
    · cases checked

/-! ## Solvers -/

namespace Solver

variable {solver after : Solver α} {id : VariableId} {former : Variable α}

/-- All numbers in constraints are finite. -/
def StoresFinite (solver : Solver α) : Prop :=
  ∀ constraint ∈ solver.constraints.values, constraint.IsFinite

def QueuesFinite (solver : Solver α) : Prop :=
  ∀ item ∈ solver.deferred, Scalar.isFinite item.2 = true

instance (solver : Solver α) : Decidable solver.StoresFinite :=
  inferInstanceAs
    (Decidable (∀ constraint ∈ solver.constraints.values, constraint.IsFinite))

instance (solver : Solver α) : Decidable solver.QueuesFinite :=
  inferInstanceAs
    (Decidable (∀ item ∈ solver.deferred, Scalar.isFinite item.2 = true))

/-- Finite numbers make equations. -/
theorem StoresFinite.assemble_ne [FiniteUnits α]
    (stores : solver.StoresFinite) :
    solver.assemble ≠ .error .entriesNotFinite := by
  have areFinite : ∀ equation ∈ solver.equations,
      equation.toRow.all Scalar.isFinite = true := by
    intro equation member
    rcases List.mem_map.mp member with ⟨constraint, isConstraint, rfl⟩
    have isFinite := stores constraint isConstraint
    simp only [Equation.toRow, Solver.equation, List.all_append,
      Bool.and_eq_true, List.all_cons, List.all_nil, and_true, isFinite.sum,
      List.all_eq_true, Vector.mem_toList_iff, Vector.mem_ofFn]
    rintro coefficient ⟨column, rfl⟩
    cases found : constraint.terms.get? (solver.unknowns.entry column).1 with
    | none => exact FiniteUnits.zero
    | some coefficient =>
        exact isFinite.terms coefficient (Table.mem_values_of_get? found)
  unfold assemble Tableau.make
  rw [if_pos (List.all_eq_true.mpr areFinite)]
  split
  · simp
  · split <;> simp

theorem assemble_of_sum {constraint : Constraint α}
    (member : constraint ∈ solver.constraints.values)
    (notFinite : Scalar.isFinite constraint.sum = false) :
    solver.assemble = .error .entriesNotFinite := by
  have fails :
      ¬(solver.equations.all fun equation =>
        equation.toRow.all Scalar.isFinite) = true := by
    rw [List.all_eq_true]
    intro areFinite
    have isFinite := areFinite _ (List.mem_map_of_mem member)
    simp [Equation.toRow, Solver.equation, notFinite] at isFinite
  unfold assemble Tableau.make
  rw [if_neg fails]

namespace StoresFinite

theorem of_constraints (stores : solver.StoresFinite)
    (constraints : after.constraints = solver.constraints) :
    after.StoresFinite := by
  rw [StoresFinite, constraints]
  exact stores

theorem of_subset (stores : solver.StoresFinite)
    (subset : after.constraints.values ⊆ solver.constraints.values) :
    after.StoresFinite :=
  fun constraint member => stores constraint (subset member)

theorem insertConstraint (stores : solver.StoresFinite)
    {constraint : Constraint α} (isFinite : constraint.IsFinite) :
    (solver.insertConstraint constraint).StoresFinite := by
  intro other member
  rcases Table.mem_values_put member with old | rfl
  · exact stores other old
  · exact isFinite

theorem modifyConstraint (stores : solver.StoresFinite) (held : ConstraintId)
    {change : Constraint α → Constraint α}
    (isFinite : ∀ constraint : Constraint α, constraint.IsFinite →
      (change constraint).IsFinite) :
    (solver.modifyConstraint held change).StoresFinite := by
  intro other member
  rcases Table.mem_values_modify member with old | ⟨former, isFormer, rfl⟩
  · exact stores other old
  · exact isFinite former (stores former isFormer)

theorem eraseConstraints (stores : solver.StoresFinite) (held : ConstraintId) :
    { solver with constraints := solver.constraints.erase held }.StoresFinite :=
  stores.of_subset (Table.values_erase_sublist _ _).subset

theorem release (stores : solver.StoresFinite) (id : VariableId) :
    (solver.release id).StoresFinite := by
  unfold Solver.release
  split
  · exact stores.of_subset (Table.values_erase_sublist _ _).subset
  · exact stores

theorem eraseVariable (stores : solver.StoresFinite) (id : VariableId) :
    (solver.eraseVariable id).StoresFinite := by
  intro constraint member
  simp only [Solver.eraseVariable, Table.values_map, List.mem_map] at member
  rcases member with ⟨former, isFormer, rfl⟩
  exact (stores.release id former isFormer).erase id

variable [FiniteUnits α]

theorem pin (stores : solver.StoresFinite)
    (number : ∀ contents, solver.unknowns.get? id = some contents →
      Scalar.isFinite contents.value = true) :
    (solver.pin id).StoresFinite := by
  cases found : solver.unknowns.get? id with
  | none => simpa only [Solver.pin, found] using stores
  | some contents =>
      rw [pin_eq found]
      exact stores.insertConstraint (.pinning id (number contents found))

theorem holdAt (stores : solver.StoresFinite) (id : VariableId) {value : α}
    (number : Scalar.isFinite value = true) :
    (solver.holdAt id value).StoresFinite := by
  have stored : (solver.storeValue id value).StoresFinite :=
    stores.of_constraints rfl
  refine (stored.release id).pin fun contents found => ?_
  cases present : solver.unknowns.get? id with
  | some former =>
      rw [get?_release_storeValue present] at found
      cases found
      exact number
  | none =>
      have absent :
          id ∉ ((solver.storeValue id value).release id).unknowns.keys := by
        rw [keys_release, storeValue, keys_modifyVariable]
        exact Table.get?_eq_none_iff.mp present
      exact absurd (Table.mem_keys_of_get? found) absent

/-- A locked variable is pinned once more if its value is taken back. -/
theorem letGo (stores : solver.StoresFinite) (id : VariableId)
    {outcome : Except (Failure α) (List VariableId)}
    (number : outcome = .error .overConstrained → former.lock.isSome = true →
      Scalar.isFinite former.value = true) :
    (solver.letGo id former outcome).StoresFinite := by
  have cleaned : ∀ undone : Solver α, undone.StoresFinite →
      (if former.lock.isSome then undone
        else undone.release id).StoresFinite := by
    intro undone undoneStores
    split
    · exact undoneStores
    · exact undoneStores.release id
  apply cleaned
  split
  · dsimp only
    split
    · next locked => exact stores.holdAt id (number rfl locked)
    · have stored : (solver.storeValue id former.value).StoresFinite :=
        stores.of_constraints rfl
      exact stored.release id
  · exact stores

end StoresFinite

/-- One constraint is changed, whatever the change would make of others. -/
theorem StoresFinite.modifyConstraint_of_found (stores : solver.StoresFinite)
    (coherent : solver.Coherent) {held : ConstraintId}
    {constraint : Constraint α}
    (found : solver.constraints.get? held = some constraint)
    {change : Constraint α → Constraint α}
    (isFinite : (change constraint).IsFinite) :
    (solver.modifyConstraint held change).StoresFinite := by
  have same : solver.constraints.modify held change =
      solver.constraints.modify held fun _ => change constraint := by
    apply Table.modify_congr coherent.constraintsNodup
    intro other isOther
    rw [Option.some.inj (isOther.symm.trans found)]
  intro other member
  rw [Solver.modifyConstraint, same] at member
  rcases Table.mem_values_modify member with old | ⟨_, _, rfl⟩
  · exact stores other old
  · exact isFinite

/-! A number that is not finite is found where it has been stored. -/

theorem not_storesFinite_pin (found : solver.unknowns.get? id = some former)
    (stray : Scalar.isFinite former.value = false) :
    ¬(solver.pin id).StoresFinite := by
  intro stores
  have member :
      Constraint.pinning id former.value ∈
        (solver.pin id).constraints.values := by
    rw [pin_eq found]
    exact Table.mem_values_of_get? (Table.get?_put_self _ _ _)
  exact Bool.false_ne_true (stray.symm.trans (stores _ member).sum)

theorem not_storesFinite_modifyConstraint {held : ConstraintId}
    {constraint : Constraint α}
    (found : solver.constraints.get? held = some constraint)
    {change : Constraint α → Constraint α}
    (stray : ¬(change constraint).IsFinite) :
    ¬(solver.modifyConstraint held change).StoresFinite := by
  intro stores
  have changed : (solver.modifyConstraint held change).constraints.get? held =
      some (change constraint) := by
    rw [modifyConstraint, Table.get?_modify, if_pos rfl, found]
    rfl
  exact stray (stores _ (Table.mem_values_of_get? changed))

def RestoresStray (solver : Solver α) (id : VariableId)
    (result : Except (Failure α) (List VariableId)) : Prop :=
  result = .error .overConstrained ∧ ∃ former,
    solver.unknowns.get? id = some former ∧ former.lock.isSome = true ∧
    Scalar.isFinite former.value = false

end Solver

/-! ## Tasks -/

/-- The task stores a number that the solver has computed, and that is not
finite. -/
inductive Task.Spoils (solver : Solver α)
    (result : Except (Failure α) (List VariableId)) :
    Task α → Prop
  /-- The sum of two finite coefficients is not finite. -/
  | overflow {handle argument coefficient constraint id present}
      (isThere : solver.constraintAt handle = .ok constraint)
      (checked : solver.checkVariable argument = .ok id)
      (isPresent : constraint.terms.get? id = some present)
      (former : Scalar.isFinite present = true)
      (added : Scalar.isFinite coefficient = true)
      (overflows : Scalar.isFinite (present + coefficient) = false) :
      Spoils solver result (.addTerm handle argument (some coefficient))
  /-- A variable is locked at a value that is not finite. -/
  | locked {handle contents} (isThere : solver.variableAt handle = .ok contents)
      (unlocked : contents.lock = none)
      (stray : Scalar.isFinite contents.value = false) :
      Spoils solver result (.lock handle)
  | restored {handle value} (restores : solver.RestoresStray handle.id result) :
      Spoils solver result (.setValue handle value)

def Draft.StaysFinite (before after : Draft α) : Prop :=
  before.solver.StoresFinite → after.solver.StoresFinite

theorem Draft.StaysFinite.lasting :
    Edit.Lasting (Draft.StaysFinite : Draft α → Draft α → Prop) :=
  ⟨fun _ => id, fun _ _ _ left right stores => right (left stores)⟩

namespace Edit

open Draft (StaysFinite)
open Draft.StaysFinite (lasting)
open Solver (StoresFinite)

variable {before after : Draft α}
  {result : Except (Failure α) (List VariableId)}

/-- The coefficients that have been checked are finite. -/
theorem isFinite_of_checkTerms {solver : Solver α}
    {terms : List (Argument × Option α)} {stored : Table VariableId α}
    (checked : checkTerms solver terms = .ok stored) :
    ∀ coefficient ∈ stored.values, Scalar.isFinite coefficient = true := by
  have extends_ : ∀ (terms : List (Argument × Option α))
      (former stored : Table VariableId α),
      (∀ coefficient ∈ former.values, Scalar.isFinite coefficient = true) →
      terms.foldlM (fun stored term => do
        let coefficient ← finite .coefficient term.2
        let id ← solver.checkVariable term.1
        return stored.put id coefficient) former = Except.ok stored →
      ∀ coefficient ∈ stored.values, Scalar.isFinite coefficient = true := by
    intro terms
    induction terms with
    | nil =>
        intro former stored isFinite equal
        cases equal
        exact isFinite
    | cons term rest induction =>
        intro former stored isFinite equal
        rw [List.foldlM_cons] at equal
        cases number : finite .coefficient term.2 with
        | error failure =>
            rw [number] at equal
            cases equal
        | ok coefficient =>
            cases checked : solver.checkVariable term.1 with
            | error failure =>
                rw [number, checked] at equal
                cases equal
            | ok id =>
                rw [number, checked] at equal
                refine induction _ stored (fun other member => ?_) equal
                rcases Table.mem_values_put member with old | rfl
                · exact isFinite other old
                · exact isFinite_of_finite number
  exact extends_ terms Table.empty stored
    (fun _ impossible => nomatch impossible) checked

theorem update_staysFinite {change : Solver α → Solver α}
    (stays : ∀ solver : Solver α, solver.StoresFinite →
      (change solver).StoresFinite) :
    Keeps StaysFinite (update change) :=
  keeps_update fun draft => stays draft.solver

theorem reduction_staysFinite (solver : Solver α) :
    Keeps StaysFinite (reduction solver) := by
  intro before result after yields
  rw [StaysFinite, (reduction_cases yields).1]
  exact id

theorem writeSolution_staysFinite :
    Keeps StaysFinite (writeSolution : Edit α _) :=
  fun _ _ _ yields stores =>
    stores.of_constraints (writeSolution_cases yields).1.constraints

theorem writeIfAuto_staysFinite : Keeps StaysFinite (writeIfAuto : Edit α _) :=
  fun _ _ _ yields stores =>
    stores.of_constraints (constraints_writeIfAuto yields)

theorem staysFinite_update_bind {change : Solver α → Solver α}
    (stays : ∀ solver : Solver α, solver.StoresFinite →
      (change solver).StoresFinite) :
    Keeps StaysFinite (do update change; writeIfAuto) :=
  lasting.bind (update_staysFinite stays) fun _ => writeIfAuto_staysFinite

theorem staysFinite_finite_bind {β : Type} {quantity : Quantity}
    {given : Option α} {next : α → Edit α β}
    (later : ∀ number, Scalar.isFinite number = true →
      Keeps StaysFinite (next number)) :
    Keeps StaysFinite (ofOutcome (finite quantity given) >>= next) := by
  intro before result after yields
  rcases yields_ofOutcome_bind.mp yields with
    ⟨_, _, _, rfl⟩ | ⟨number, checked, rest⟩
  · exact id
  · exact later number (isFinite_of_finite checked) _ _ _ rest

theorem addConstraint_staysFinite (terms : List (Argument × Option α))
    (total : Option α) :
    Keeps StaysFinite (Task.addConstraint terms total).edit := by
  rw [Task.edit_addConstraint]
  refine staysFinite_finite_bind fun sum isSum => ?_
  intro before result after yields
  rcases yields_check_bind.mp yields with
    ⟨_, _, _, rfl⟩ | ⟨stored, checked, rest⟩
  · exact id
  · simp only [yields_current_bind, yields_update_bind] at rest
    have isFinite : Constraint.IsFinite ⟨stored, sum, .stated⟩ :=
      ⟨isSum, isFinite_of_checkTerms checked⟩
    have ends :=
      lasting.undoing (fun _ stores => StoresFinite.eraseConstraints stores _)
        writeIfAuto_staysFinite _ _ _ rest
    exact fun stores => ends (stores.insertConstraint isFinite)

theorem addTerm_staysFinite {handle : ConstraintHandle} {argument : Argument}
    {given : Option α} (coherent : before.solver.Coherent)
    (yields : (addTerm handle argument given).Yields before result after)
    (fine : ¬(Task.addTerm handle argument given).Spoils before.solver result) :
    before.StaysFinite after := by
  rcases yields_check_bind.mp yields with
    ⟨_, _, _, rfl⟩ | ⟨constraint, isThere, checking⟩
  · exact id
  · rcases yields_check_bind.mp checking with
      ⟨_, _, _, rfl⟩ | ⟨target, checked, valuing⟩
    · exact id
    · rcases yields_ofOutcome_bind.mp valuing with
        ⟨_, _, _, rfl⟩ | ⟨number, isNumber, rest⟩
      · exact id
      · intro stores
        have found := Solver.get?_of_constraintAt isThere
        have isConstraint := stores constraint (Table.mem_values_of_get? found)
        refine writeIfAuto_staysFinite _ _ _ (yields_update_bind.mp rest)
          (stores.modifyConstraint_of_found coherent found
            (isConstraint.put target ?_))
        have added := isFinite_of_finite isNumber
        cases isPresent : constraint.terms.get? target with
        | none => exact added
        | some present =>
            have former :=
              isConstraint.terms present (Table.mem_values_of_get? isPresent)
            rw [eq_some_of_finite isNumber] at fine
            by_contra overflows
            exact fine (.overflow isThere checked isPresent former added
              (eq_false_of_ne_true overflows))

section Pinning

variable [FiniteUnits α]

theorem lock_staysFinite {handle : VariableHandle}
    (yields : (lock handle).Yields before result after)
    (fine : ¬(Task.lock handle).Spoils before.solver result) :
    before.StaysFinite after := by
  rcases yields_check_bind.mp yields with
    ⟨_, _, _, rfl⟩ | ⟨contents, isThere, rest⟩
  · exact id
  · split at rest
    · rw [(yields_pure.mp rest).2]
      exact id
    · next notLocked =>
        intro stores
        have ends :=
          lasting.undoing (fun _ stores => StoresFinite.release stores _)
            writeIfAuto_staysFinite _ _ _ (yields_update_bind.mp rest)
        refine ends (stores.pin fun other found => ?_)
        rw [Solver.get?_of_variableAt isThere] at found
        cases found
        by_contra stray
        exact fine
          (.locked isThere (by simpa using notLocked)
            (eq_false_of_ne_true stray))

theorem applyValue_staysFinite {id : VariableId} {value : α}
    (number : Scalar.isFinite value = true)
    (yields : (applyValue id value).Yields before result after)
    (fine : ¬before.solver.RestoresStray id result) :
    before.StaysFinite after := by
  cases applyValue_cases yields with
  | absent _ | unread _ _ | noNews _ _ _ => exact fun stores => stores
  | @held former _ outcome middle found _ _ written =>
      intro stores
      have held :=
        writeIfAuto_staysFinite _ _ _ written (stores.holdAt id number)
      refine held.letGo id fun contradiction locked => ?_
      subst contradiction
      by_contra stray
      exact fine ⟨rfl, former, found, locked, eq_false_of_ne_true stray⟩

theorem setValue_staysFinite {handle : VariableHandle} {given : Option α}
    (yields : (setValue handle given).Yields before result after)
    (fine : ¬(Task.setValue handle given).Spoils before.solver result) :
    before.StaysFinite after := by
  rcases yields_check_bind.mp yields with
    ⟨_, _, _, rfl⟩ | ⟨target, checked, valuing⟩
  · exact id
  · rcases yields_ofOutcome_bind.mp valuing with
      ⟨_, _, _, rfl⟩ | ⟨number, isNumber, rest⟩
    · exact id
    · rcases Solver.exists_handle_of_checkVariable checked with
        ⟨_, isHandle, rfl⟩
      cases isHandle
      rw [yields_current_bind] at rest
      split at rest
      · simp only [yields_update_bind, yields_note_bind, yields_pure] at rest
        rw [rest.2]
        exact fun stores => stores.of_constraints rfl
      · exact applyValue_staysFinite (isFinite_of_finite isNumber) rest
          fun restores => fine (.restored restores)

end Pinning

/-! What is spoilt is stored. -/

theorem writeIfAuto_of_error {failure : Failure α}
    (yields : writeIfAuto.Yields before (.error failure) after) :
    after.solver = before.solver.unpended := by
  rcases writeIfAuto_cases yields with ⟨_, writes⟩ | ⟨_, impossible, _⟩
  · generalize after.solver = later at writes ⊢
    cases writes <;> rfl
  · cases impossible

theorem applyValue_stores_stray {id : VariableId} {value : α}
    (yields : (applyValue id value).Yields before result after)
    (restores : before.solver.RestoresStray id result) :
    ¬after.solver.StoresFinite := by
  rcases restores with ⟨rfl, former, found, locked, stray⟩
  generalize isResult : Except.error Failure.overConstrained = result at yields
  cases applyValue_cases yields with
  | absent _ | noNews _ _ _ => cases isResult
  | unread _ unread =>
      cases isResult
      exact absurd unread (Settings.toleranceFor_ne_overConstrained _ _)
  | @held other _ outcome middle isThere _ _ written =>
      cases found.symm.trans isThere
      cases outcome with
      | ok moved => cases isResult
      | error failure =>
          cases isResult
          have live : id ∈ middle.solver.unknowns.keys := by
            rw [writeIfAuto_of_error written, Solver.unpended,
              Solver.keys_holdAt]
            exact Table.mem_keys_of_get? found
          rcases Table.exists_get?_of_mem_keys live with ⟨contents, isContents⟩
          simp only [Solver.letGo, locked, if_true]
          exact Solver.not_storesFinite_pin
            (Solver.get?_release_storeValue isContents _) stray

/-- A lock at a value that is not finite stays: no solve begins that could
contradict it. -/
theorem lock_stores_stray {handle : VariableHandle} {contents : Variable α}
    (isThere : before.solver.variableAt handle = .ok contents)
    (unlocked : contents.lock = none)
    (stray : Scalar.isFinite contents.value = false)
    (yields : (lock handle).Yields before result after) :
    ¬after.solver.StoresFinite := by
  have found := Solver.get?_of_variableAt isThere
  have notLocked : ¬contents.lock.isSome = true := by simp [unlocked]
  rw [lock, yields_check_bind_of_ok isThere, if_neg notLocked,
    yields_update_bind, yields_undoing] at yields
  rcases yields with ⟨middle, written, rfl⟩
  have stored : ¬middle.solver.StoresFinite := fun stores =>
    Solver.not_storesFinite_pin found stray
      (stores.of_constraints (constraints_writeIfAuto written).symm)
  split
  · have failed :
        (before.solver.pin handle.id).assemble = .error .entriesNotFinite := by
      have member : Constraint.pinning handle.id contents.value ∈
          (before.solver.pin handle.id).constraints.values := by
        rw [Solver.pin_eq found]
        exact Table.mem_values_of_get? (Table.get?_put_self _ _ _)
      exact Solver.assemble_of_sum member stray
    rcases writeIfAuto_cases written with ⟨_, writes⟩ | ⟨_, impossible, _⟩
    · generalize middle.solver = left at writes
      cases writes with
      | unassembled _ unassembled => cases unassembled.symm.trans failed
      | refused _ assembled _ _ => cases assembled.symm.trans failed
    · cases impossible
  · exact stored

theorem addTerm_stores_stray {handle : ConstraintHandle} {argument : Argument}
    {coefficient : α} {constraint : Constraint α} {id : VariableId}
    {present : α} (isThere : before.solver.constraintAt handle = .ok constraint)
    (checked : before.solver.checkVariable argument = .ok id)
    (isPresent : constraint.terms.get? id = some present)
    (overflows : Scalar.isFinite (present + coefficient) = false)
    (added : Scalar.isFinite coefficient = true)
    (yields : (addTerm handle argument (some coefficient)).Yields before result
      after) :
    ¬after.solver.StoresFinite := by
  have isNumber : finite .coefficient (some coefficient) = .ok coefficient :=
    if_pos added
  rw [addTerm, yields_check_bind_of_ok isThere, yields_check_bind_of_ok checked,
    isNumber, ofOutcome, yields_pure_bind, yields_update_bind] at yields
  intro stores
  have edited := stores.of_constraints (constraints_writeIfAuto yields).symm
  refine Solver.not_storesFinite_modifyConstraint
    (Solver.get?_of_constraintAt isThere) ?_ edited
  intro isFinite
  have member :=
    Table.mem_values_of_get?
      (Table.get?_put_self constraint.terms id (present + coefficient))
  simp only [isPresent] at isFinite
  exact Bool.false_ne_true (overflows.symm.trans (isFinite.terms _ member))

end Edit

namespace Task

open Edit
open Draft (StaysFinite)
open Draft.StaysFinite (lasting)

variable {task : Task α} {before after : Draft α}
  {result : Except (Failure α) (List VariableId)}

/-- A task that does not spoil the constraints leaves them finite. -/
theorem edit_staysFinite [FiniteUnits α] (coherent : before.solver.Coherent)
    (yields : task.edit.Yields before result after)
    (fine : ¬task.Spoils before.solver result) :
    before.StaysFinite after := by
  have still : ∀ {β : Type} {edit : Edit α β}, Keeps StaysFinite edit →
      Keeps StaysFinite edit.still :=
    fun kept => lasting.bind kept fun _ => lasting.pure []
  cases task with
  | solve => exact writeSolution_staysFinite _ _ _ yields
  | addVariable name value =>
      refine still (lasting.bind (lasting.ofOutcome _) fun value => ?_) _ _
        _ yields
      refine lasting.bind lasting.current fun _ => lasting.bind ?_ fun _ =>
        lasting.pure _
      exact update_staysFinite fun _ stores => stores.of_constraints rfl
  | setValue handle value => exact setValue_staysFinite yields fine
  | lock handle => exact lock_staysFinite yields fine
  | unlock handle =>
      exact still (lasting.bind (lasting.check _) fun _ => update_staysFinite
        fun _ stores => stores.release handle.id) _ _ _ yields
  | deleteVariable handle =>
      exact still (lasting.bind (lasting.check _) fun _ => update_staysFinite
        fun _ stores => stores.eraseVariable handle.id) _ _ _ yields
  | observe handle hook =>
      have kept : Keeps StaysFinite (Edit.observe handle hook : Edit α Unit) :=
        lasting.bind (lasting.check _) fun _ => update_staysFinite
          fun _ stores => stores.of_constraints rfl
      exact still kept _ _ _ yields
  | forget target hook =>
      refine still (update_staysFinite fun solver stores => ?_) _ _ _ yields
      split
      · split
        · exact stores.of_constraints rfl
        · exact stores
      · exact stores
  | addConstraint terms total =>
      exact addConstraint_staysFinite terms total _ _ _ yields
  | setTerm handle argument coefficient =>
      refine (lasting.bind (lasting.check _) fun _ => ?_) _ _ _ yields
      refine staysFinite_finite_bind fun number isNumber => ?_
      refine lasting.bind (lasting.check _) fun target =>
        staysFinite_update_bind ?_
      exact fun _ stores => stores.modifyConstraint _ fun _ isFinite =>
        isFinite.put target isNumber
  | addTerm handle argument coefficient =>
      exact addTerm_staysFinite coherent yields fine
  | removeTerm handle argument =>
      refine (lasting.bind (lasting.check _) fun _ =>
        lasting.bind (lasting.check _) fun target => staysFinite_update_bind ?_)
          _ _ _ yields
      exact fun _ stores => stores.modifyConstraint _ fun _ isFinite =>
        isFinite.erase target
  | setSum handle total =>
      refine staysFinite_finite_bind (fun number isNumber => ?_) _ _ _ yields
      refine lasting.bind (lasting.check _) fun _ => staysFinite_update_bind ?_
      exact fun _ stores => stores.modifyConstraint _ fun _ isFinite =>
        ⟨isNumber, isFinite.terms⟩
  | deleteConstraint handle =>
      have kept :
          Keeps StaysFinite (Edit.deleteConstraint handle : Edit α Unit) :=
        lasting.bind (lasting.check _) fun _ => update_staysFinite
          fun _ stores =>
          stores.of_subset (Table.values_erase_sublist _ _).subset
      exact still kept _ _ _ yields
  | isOverConstrained | isUnderConstrained | freeVariables =>
      exact still (lasting.bind lasting.current fun solver =>
        lasting.bind (reduction_staysFinite solver) fun _ => lasting.pure _) _ _
          _ yields

theorem Spoils.stores_stray (spoils : task.Spoils before.solver result)
    (yields : task.edit.Yields before result after) :
    ¬after.solver.StoresFinite := by
  cases spoils with
  | overflow isThere checked isPresent _ added overflows =>
      exact addTerm_stores_stray isThere checked isPresent overflows
        added yields
  | locked isThere unlocked stray =>
      exact lock_stores_stray isThere unlocked stray yields
  | restored restores =>
      rcases exists_applyValue_of_overConstrained (restores.1 ▸ yields) with
        ⟨number, applied⟩
      exact applyValue_stores_stray applied ⟨rfl, restores.2⟩

end Task

/-! ## Deferred work -/

namespace Solver

open Edit

variable {solver : Solver α} {work : Edit α (List VariableId)} {draft : Draft α}
  {result : Except (Failure α) (List VariableId)}

def SpoilsDeferred (solver : Solver α)
    (result : Except (Failure α) (List VariableId)) : Prop :=
  ∃ target value rest, solver.deferred = (target, value) :: rest ∧
    solver.RestoresStray target result

theorem storesFinite_of_nextDeferred [FiniteUnits α]
    (stores : solver.StoresFinite) (queues : solver.QueuesFinite)
    (next : solver.nextDeferred = some work)
    (yields : work.Yields ⟨solver, []⟩ result draft)
    (fine : ¬solver.SpoilsDeferred result) :
    draft.solver.StoresFinite := by
  rcases nextDeferred_cases next with ⟨target, value, rest, queue, rfl⟩
    | ⟨_, _, rfl⟩
  · simp only [takeValue, yields_update_bind, yields_note_bind] at yields
    have number : Scalar.isFinite value = true := by
      refine queues (target, value) ?_
      rw [queue]
      exact List.mem_cons_self
    have kept : StoresFinite { solver with deferred := rest } :=
      stores.of_constraints rfl
    exact applyValue_staysFinite number yields
      (fun restores => fine ⟨target, value, rest, queue, restores⟩) kept
  · simp only [takeSolve, yields_note_bind] at yields
    exact writeSolution_staysFinite _ _ _ yields stores

theorem SpoilsDeferred.stores_stray (spoils : solver.SpoilsDeferred result)
    (next : solver.nextDeferred = some work)
    (yields : work.Yields ⟨solver, []⟩ result draft) :
    ¬draft.solver.StoresFinite := by
  rcases spoils with ⟨target, value, rest, queue, restores⟩
  cases (nextDeferred_of_queued queue).symm.trans next
  simp only [takeValue, yields_update_bind, yields_note_bind] at yields
  exact applyValue_stores_stray yields restores

end Solver

end LiveLinear
