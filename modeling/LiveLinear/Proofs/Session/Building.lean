import LiveLinear.Proofs.Session.Diagnosis
import LiveLinear.Proofs.Session.Numbering
import LiveLinear.Proofs.Solver.Finiteness
import LiveLinear.Proofs.Solver.Gathering

namespace LiveLinear

/-! # Ways of building a constraint

A constraint can be put together by a builder, handed over with all of its
terms, or added without terms in a batch and completed there. All of this comes
to the same. -/

variable {α β : Type}

structure Mention (α : Type u) where
  label : String
  target : VariableId
  coefficient : α

namespace Mention

def term (mention : Mention α) : VariableId × α :=
  (mention.target, mention.coefficient)

/-- The label is bound to a live variable of the solver, and the coefficient is
finite. -/
structure Fits [Scalar α] (mention : Mention α) (world : World α)
    (id : SolverId) (solver : Solver α) : Prop where
  bound : world.labels.unknowns.get? mention.label = some ⟨id, mention.target⟩
  live : mention.target ∈ solver.unknowns.keys
  finite : Scalar.isFinite mention.coefficient = true

end Mention

namespace Session

/-- Begin a builder, give it terms and the sum, and let it build. -/
def buildingCommands (name builder label : String) (mentions : List (Mention α))
    (sum : α) :
    List (Command α) :=
  .operation (.newBuilder name builder) ::
    (mentions.map fun mention => .operation
      (.builderTerm builder (.label mention.label)
        (.literal (some mention.coefficient)))) ++
    [.operation (.builderSum builder (.literal (some sum))),
      .operation (.build builder (some label))]

/-- Hand all terms over at once. -/
def handingCommands (name label : String) (mentions : List (Mention α))
    (sum : α) :
    List (Command α) :=
  [.operation (.addConstraint name (some label)
    (mentions.map fun mention =>
      (.label mention.label, .literal (some mention.coefficient)))
    (.literal (some sum)))]

def completingCommands (label : String) (mentions : List (Mention α))
    (sum : α) :
    List (Command α) :=
  (mentions.map fun mention => .operation
      (.setTerm label (.label mention.label)
        (.literal (some mention.coefficient)))) ++
    [.operation (.setSum label (.literal (some sum)) .chained)]

/-- In a batch, add a constraint without terms and complete it. -/
def batchCommands [Zero α] (name label : String) (mentions : List (Mention α))
    (sum : α) :
    List (Command α) :=
  [.batch name
    (.ofList
      ((.operation (.addConstraint name (some label) [] (.literal (some 0))) ::
        completingCommands label mentions sum).map fun command =>
        (command, false)))]

/-- Commands are carried out one after another. All but the last one succeed,
and the last one ends like this. -/
inductive Completes [Scalar α] (engine : Engine α) (context : Option α) :
    List (Command α) → World α → Except (Failure α) (Reply α) → World α → Prop
  | last
      (yields : (Action.execute engine context command).Yields before outcome
        after) :
      Completes engine context [command] before outcome after
  | next (yields : (Action.execute engine context command).Yields before
      (.ok reply) middle)
      (rest : Completes engine context commands middle outcome after) :
      Completes engine context (command :: commands) before outcome after

end Session

namespace World

def bindBuilder (world : World α) (label : String) (builder : Builder α) :
    World α :=
  { world with
    labels :=
      { world.labels with
        builders := world.labels.builders.put label builder } }

def bindConstraint (world : World α) (label : String)
    (handle : ConstraintHandle) : World α :=
  { world with
    labels :=
      { world.labels with
        constraints := world.labels.constraints.put label handle } }

theorem get?_bindBuilder (world : World α) (label : String)
    (builder : Builder α) :
    (world.bindBuilder label builder).labels.builders.get? label =
      some builder :=
  Table.get?_put_self _ _ _

theorem get?_bindConstraint (world : World α) (label : String)
    (handle : ConstraintHandle) :
    (world.bindConstraint label handle).labels.constraints.get? label =
      some handle :=
  Table.get?_put_self _ _ _

end World

theorem Action.yields_bindBuilder_bind {world after : World α} {label : String}
    {builder : Builder α} {next : Unit → Action α β}
    {result : Except (Failure α) β} :
    (bindBuilder label builder >>= next).Yields world result after ↔
      (next ()).Yields (world.bindBuilder label builder) result after :=
  Iff.rfl

theorem Action.yields_bindConstraint_bind {world after : World α}
    {label : String} {handle : ConstraintHandle} {next : Unit → Action α β}
    {result : Except (Failure α) β} :
    (bindConstraint (some label) handle >>= next).Yields world result after ↔
      (next ()).Yields (world.bindConstraint label handle) result after :=
  Iff.rfl

def Builder.holding (id : SolverId) (terms : Table VariableId α) (total : α) :
    Builder α :=
  ⟨id, terms.rename (VariableHandle.mk id) some, some total, false⟩

theorem Builder.terms_put_holding (id : SolverId) (terms : Table VariableId α)
    (total : α) (target : VariableId) (coefficient : α) :
    (holding id terms total).terms.put ⟨id, target⟩ (some coefficient) =
      (holding id (terms.put target coefficient) total).terms :=
  Table.put_rename (fun _ _ same => (VariableHandle.mk.inj same).2) some terms
    target coefficient

theorem Builder.handed_holding (id : SolverId) (terms : Table VariableId α)
    (total : α) :
    ((holding id terms total).terms.entries.map fun term =>
      (Argument.handle term.1, term.2)) = handed id terms := by
  simp only [holding, Table.rename, handed, List.map_map]
  rfl

section Builders

variable [Scalar α] {engine : Engine α} {context : Option α} {world : World α}
  {id : SolverId} {solver : Solver α}

theorem Action.yields_newBuilder {name : String} (builder : String)
    (named : world.labels.solvers.get? name = some id) :
    (execute engine context (.operation (.newBuilder name builder))).Yields
      world (.ok .nothing) (world.bindBuilder builder (.holding id ∅ 0)) := by
  simp only [execute, operate, solverNamed]
  rw [yields_lookUp_bind named, yields_bindBuilder_bind]
  exact yields_pure.mpr ⟨rfl, rfl⟩

variable {builder : String} {terms : Table VariableId α} {total : α}
  (isBuilder : world.labels.builders.get? builder =
    some (.holding id terms total))

include isBuilder

theorem Action.yields_builderTerm (found : world.solvers[id]? = some solver)
    {mention : Mention α}
    (bound : world.labels.unknowns.get? mention.label =
      some ⟨id, mention.target⟩)
    (checked : solver.checkVariable (.handle ⟨id, mention.target⟩) =
      .ok mention.target) :
    (execute engine context
        (.operation
          (.builderTerm builder (.label mention.label)
            (.literal (some mention.coefficient))))).Yields world (.ok .itself)
      (world.bindBuilder builder
        (.holding id (terms.put mention.target mention.coefficient)
          total)) := by
  have consulted : (consult id fun solver =>
      solver.checkVariable (.handle ⟨id, mention.target⟩)).Yields world
        (.ok mention.target) world := yields_consult_of_ok found checked
  simp only [execute, operate, builderNamed, resolve, variableNamed, evaluate,
    bind_assoc, pure_bind]
  rw [yields_lookUp_bind isBuilder, yields_lookUp_bind bound]
  simp only [Builder.terms_put_holding]
  refine (yields_bind_of_ok consulted).mpr ?_
  exact yields_bindBuilder_bind.mpr (yields_pure.mpr ⟨rfl, rfl⟩)

theorem Action.yields_builderSum (sum : α) :
    (execute engine context
      (.operation (.builderSum builder (.literal (some sum))))).Yields world
      (.ok .itself) (world.bindBuilder builder (.holding id terms sum)) := by
  simp only [execute, operate, builderNamed, evaluate, pure_bind]
  rw [yields_lookUp_bind isBuilder, yields_bindBuilder_bind]
  exact yields_pure.mpr ⟨rfl, rfl⟩

theorem Action.yields_build {label : Option String} :
    ∃ spent : Builder α, ∀ outcome after,
      (addConstraint engine id (handed id terms) (some total) label).Yields
        (world.bindBuilder builder spent) outcome after →
      (execute engine context (.operation (.build builder label))).Yields world
        outcome after := by
  refine ⟨{ Builder.holding id terms total with built := true },
    fun outcome after added => ?_⟩
  rw [← Builder.handed_holding id terms total] at added
  simp only [execute, operate, build, builderNamed]
  rw [yields_lookUp_bind isBuilder]
  exact added

end Builders

/-! ## The solve that follows -/

section Settling

variable [Scalar α] {engine : Engine α} {context : Option α} {world : World α}
  {id : SolverId} {solver : Solver α}
  {result : Except (Failure α) (List VariableId)} {draft : Draft α}

/-- What has been done ends as a solve does that ends with `result`. If that is
no failure, the solve has left its solver like this, and the label is bound to
the constraint. -/
structure Session.Settles (result : Except (Failure α) (List VariableId))
    (settled : Solver α) (label : String) (handle : ConstraintHandle)
    (ends : Ending α) (after : World α) :
    Prop where
  ending : ends = ending result
  found : ends = .ok () → after.solvers[handle.solver]? = some settled
  bound : ends = .ok () → after.labels.constraints.get? label = some handle

/-- Adding a constraint ends as the solve that follows it. -/
theorem Edit.exists_addConstraint (auto : solver.settings.autoSolve = true)
    {terms : List (Argument × Option α)} {stored : Table VariableId α} {sum : α}
    (checked : checkTerms solver terms = .ok stored)
    (isFinite : Scalar.isFinite sum = true)
    (written :
      writeSolution.Yields ⟨solver.insertConstraint ⟨stored, sum, .stated⟩, []⟩
        result draft) :
    ∃ last, (addConstraint terms (some sum)).Yields ⟨solver, []⟩
        (result.map fun moved =>
          ((solver.nextConstraint : ConstraintId), moved)) last ∧
      ∀ moved, result = .ok moved → last = draft := by
  have wrote :
      writeIfAuto.Yields ⟨solver.insertConstraint ⟨stored, sum, .stated⟩, []⟩
        result draft := by
    rw [writeIfAuto, yields_current_bind]
    simp only [Solver.insertConstraint, auto, if_true]
    exact written
  apply Exists.intro
  constructor
  · simp only [addConstraint, finite, isFinite, if_true, ofOutcome,
      yields_pure_bind]
    rw [yields_check_bind_of_ok checked, yields_current_bind,
      yields_update_bind, yields_bind_pure]
    exact ⟨result, yields_undoing.mpr ⟨draft, wrote, rfl⟩, rfl⟩
  · rintro moved rfl
    rfl

theorem Action.exists_addConstraint (engine : Engine α)
    (found : world.solvers[id]? = some solver)
    (auto : solver.settings.autoSolve = true) (unheard : solver.Unheard)
    (quiet : solver.Quiet) (patient : 0 < engine.patience)
    {terms : List (Argument × Option α)} {stored : Table VariableId α} {sum : α}
    (checked : Edit.checkTerms solver terms = .ok stored)
    (isFinite : Scalar.isFinite sum = true)
    (written : Edit.writeSolution.Yields
      ⟨solver.insertConstraint ⟨stored, sum, .stated⟩, []⟩ result draft)
    (label : String) :
    ∃ outcome after,
      (addConstraint engine id terms (some sum) (some label)).Yields world
        outcome after ∧
        Session.Settles result draft.solver label ⟨id, solver.nextConstraint⟩
          (ending outcome) after := by
  rcases Edit.exists_addConstraint auto checked isFinite written with
    ⟨last, added, isLast⟩
  cases result with
  | error failure =>
      have failed :
          (addConstraint engine id terms (some sum) (some label)).Yields world
            (.error failure) (world.adopt id last) :=
        yields_bind.mpr (.inl ⟨failure, edit_of_yields found added, rfl⟩)
      exact ⟨_, _, failed, rfl, by simp, by simp⟩
  | ok moved =>
      rw [isLast moved rfl] at added
      have adopted := World.getElem?_adopt_self draft found
      have inserted : (solver.insertConstraint ⟨stored, sum, .stated⟩).Quiet :=
        ⟨quiet.dispatching, quiet.draining, quiet.rested⟩
      have announced :
          (announce engine id moved).Yields (world.adopt id draft) (.ok ())
            ((world.adopt id draft).heard id moved) :=
        announce_of_unheard adopted
          ((Edit.writeSolution_cases written).1.unheard unheard)
          (inserted.of_steady (Edit.writeSolution_steady _ _ _ written))
          (.inr patient)
      refine ⟨.ok (.constraintId solver.nextConstraint),
        ((world.adopt id draft).heard id moved).bindConstraint label
        ⟨id, solver.nextConstraint⟩, ?_, rfl, fun _ => ?_, fun _ =>
        World.get?_bindConstraint ..⟩
      · rw [addConstraint, yields_bind_of_ok (edit_of_yields found added)]
        rw [yields_bind_of_ok announced, yields_bindConstraint_bind]
        exact yields_pure.mpr ⟨rfl, rfl⟩
      · exact (congrArg (·[id]?) (World.solvers_heard _ id moved)).trans adopted

end Settling

section Ways

variable [Scalar α] {engine : Engine α} {context : Option α} {world : World α}
  {id : SolverId} {solver : Solver α} {mentions : List (Mention α)}

/-! ## Handing terms over -/

omit [Scalar α] in
theorem Action.yields_resolveAll (bound : ∀ mention ∈ mentions,
      world.labels.unknowns.get? mention.label = some ⟨id, mention.target⟩) :
    (resolveAll (mentions.map fun mention =>
        (.label mention.label, .literal (some mention.coefficient)))).Yields
          world
      (.ok (mentions.map fun mention =>
        (.handle ⟨id, mention.target⟩, .literal (some mention.coefficient))))
          world := by
  induction mentions with
  | nil => exact yields_pure.mpr ⟨rfl, rfl⟩
  | cons mention rest induction =>
      rcases List.forall_mem_cons.mp bound with ⟨first, later⟩
      simp only [List.map_cons, resolveAll, resolve, variableNamed, bind_assoc,
        pure_bind]
      rw [yields_lookUp_bind first, yields_bind_of_ok (induction later)]
      exact yields_pure.mpr ⟨rfl, rfl⟩

theorem Action.yields_collectTerms (id : SolverId) (terms : Table VariableId α)
    (mentions : List (Mention α)) :
    (collectTerms context (handed id terms) (mentions.map fun mention =>
        (.handle ⟨id, mention.target⟩,
          .literal (some mention.coefficient)))).Yields world
      (.ok (handed id (terms.putAll (mentions.map Mention.term)))) world := by
  induction mentions generalizing terms with
  | nil => exact yields_pure.mpr ⟨rfl, rfl⟩
  | cons mention rest induction =>
      simp only [List.map_cons, collectTerms, evaluate, pure_bind]
      rw [insert_handed]
      exact induction (terms.put mention.target mention.coefficient)

/-! ## Completing a constraint in a batch -/

theorem Action.perform_of_still (engine : Engine α)
    (found : world.solvers[id]? = some solver)
    {change : Edit α (List VariableId)} {changed : Draft α}
    (done : change.Yields ⟨solver, []⟩ (.ok []) changed) :
    (perform engine id change).Yields world (.ok ())
      (world.adopt id changed) := by
  rw [perform, yields_bind_of_ok (edit_of_yields found done)]
  exact yields_pure.mpr ⟨rfl, rfl⟩

theorem Edit.yields_writeIfAuto_of_off {draft : Draft α}
    (off : draft.solver.settings.autoSolve = false) :
    writeIfAuto.Yields draft (.ok []) draft := by
  rw [writeIfAuto, yields_current_bind, off]
  exact yields_pure.mpr ⟨rfl, rfl⟩

section Held

variable (off : solver.settings.autoSolve = false) (numbered : solver.id = id)
include off numbered

theorem Edit.yields_setTerm (terms : Table VariableId α) (total : α)
    {argument : Argument} {target : VariableId} {coefficient : α}
    (checked : solver.checkVariable argument = .ok target)
    (isFinite : Scalar.isFinite coefficient = true) :
    (setTerm ⟨id, solver.nextConstraint⟩ argument (some coefficient)).Yields
      ⟨solver.insertConstraint ⟨terms, total, .stated⟩, []⟩ (.ok [])
      ⟨solver.insertConstraint ⟨terms.put target coefficient, total, .stated⟩,
        []⟩ := by
  simp only [setTerm, finite, isFinite, if_true, ofOutcome]
  rw [yields_check_bind_of_ok (Solver.constraintAt_insertConstraint numbered _),
    yields_pure_bind, yields_check_bind_of_ok checked, yields_update_bind,
    Solver.modifyConstraint_insertConstraint]
  exact yields_writeIfAuto_of_off off

theorem Edit.yields_setSum (terms : Table VariableId α) (total : α) {sum : α}
    (isFinite : Scalar.isFinite sum = true) :
    (setSum ⟨id, solver.nextConstraint⟩ (some sum)).Yields
      ⟨solver.insertConstraint ⟨terms, total, .stated⟩, []⟩ (.ok [])
      ⟨solver.insertConstraint ⟨terms, sum, .stated⟩, []⟩ := by
  simp only [setSum, finite, isFinite, if_true, ofOutcome, yields_pure_bind]
  rw [yields_check_bind_of_ok (Solver.constraintAt_insertConstraint numbered _),
    yields_update_bind, Solver.modifyConstraint_insertConstraint]
  exact yields_writeIfAuto_of_off off

omit numbered in
theorem Edit.yields_addConstraint_nil [FiniteUnits α] :
    (addConstraint [] (some 0)).Yields ⟨solver, []⟩
      (.ok ((solver.nextConstraint : ConstraintId), []))
      ⟨solver.insertConstraint ⟨∅, 0, .stated⟩, []⟩ := by
  have isFinite : Scalar.isFinite (0 : α) = true := FiniteUnits.zero
  have checked : checkTerms solver [] = .ok ∅ := rfl
  simp only [addConstraint, finite, isFinite, if_true, ofOutcome,
    yields_pure_bind]
  rw [yields_check_bind_of_ok checked, yields_current_bind, yields_update_bind,
    yields_bind_ok]
  exact ⟨[], _, yields_undoing.mpr ⟨_, yields_writeIfAuto_of_off off, rfl⟩,
    yields_pure.mpr ⟨rfl, rfl⟩⟩

end Held

/-- A world in which the constraint has come to have these terms and this
sum. -/
structure Session.Drafts (unknowns : Table String VariableHandle)
    (id : SolverId) (solver : Solver α) (label : String)
    (terms : Table VariableId α) (total : α) (world : World α) : Prop where
  found :
    world.solvers[id]? = some (solver.insertConstraint ⟨terms, total, .stated⟩)
  unknowns : world.labels.unknowns = unknowns
  bound : world.labels.constraints.get? label = some ⟨id, solver.nextConstraint⟩

open Session (Drafts completingCommands)

section Drafts

variable {unknowns : Table String VariableHandle} {label : String}
  {former terms : Table VariableId α} {total sum : α}
  (drafts : Drafts unknowns id solver label former total world)

omit [Scalar α] in
include drafts in
theorem Session.Drafts.record (event : Event α) :
    Drafts unknowns id solver label former total (world.record event) :=
  ⟨drafts.found, drafts.unknowns, drafts.bound⟩

omit [Scalar α] in
include drafts in
theorem Session.Drafts.adopt :
    Drafts unknowns id solver label terms sum
      (world.adopt id ⟨solver.insertConstraint ⟨terms, sum, .stated⟩, []⟩) :=
  ⟨World.getElem?_adopt_self _ drafts.found, drafts.unknowns, drafts.bound⟩

end Drafts

namespace Action

variable {unknowns : Table String VariableHandle} {label : String}
  {terms : Table VariableId α} {total sum : α}
  (off : solver.settings.autoSolve = false) (numbered : solver.id = id)

include off in
theorem exists_drafts_addConstraint [FiniteUnits α] (engine : Engine α)
    (context : Option α) (label : String) {name : String}
    (named : world.labels.solvers.get? name = some id)
    (found : world.solvers[id]? = some solver) :
    ∃ reply after,
      (execute engine context (.operation (.addConstraint name (some label) []
        (.literal (some 0))))).Yields world (.ok reply) after ∧
        Drafts world.labels.unknowns id solver label ∅ 0 after := by
  have added := edit_of_yields found (Edit.yields_addConstraint_nil off)
  have silent : ∀ other : World α,
      (announce engine id []).Yields other (.ok ()) other :=
    fun other => yields_pure.mpr ⟨rfl, rfl⟩
  have drafts : Drafts world.labels.unknowns id solver label ∅ 0
      ((world.adopt id ⟨solver.insertConstraint ⟨∅, 0, .stated⟩,
        []⟩).bindConstraint label ⟨id, solver.nextConstraint⟩) :=
    ⟨World.getElem?_adopt_self _ found, rfl, World.get?_bindConstraint ..⟩
  refine ⟨.constraintId solver.nextConstraint, _, ?_, drafts⟩
  simp only [execute, operate, resolveAll, solverNamed, collectTerms, evaluate,
    pure_bind]
  rw [yields_lookUp_bind named, addConstraint, yields_bind_of_ok added,
    yields_bind_of_ok (silent _), yields_bindConstraint_bind]
  exact yields_pure.mpr ⟨rfl, rfl⟩

include off numbered

theorem exists_drafts_setTerm
    (drafts : Drafts unknowns id solver label terms total world)
    {mention : Mention α}
    (bound : unknowns.get? mention.label = some ⟨id, mention.target⟩)
    (checked : solver.checkVariable (.handle ⟨id, mention.target⟩) = .ok
      mention.target) (isFinite : Scalar.isFinite mention.coefficient = true) :
    ∃ after,
      (execute engine context (.operation (.setTerm label (.label mention.label)
        (.literal (some mention.coefficient))))).Yields world (.ok .itself)
        after ∧
        Drafts unknowns id solver label
          (terms.put mention.target mention.coefficient) total after := by
  rw [← drafts.unknowns] at bound
  have performed := perform_of_still engine drafts.found
    (Edit.yields_setTerm off numbered terms total checked isFinite)
  refine ⟨_, ?_, drafts.adopt⟩
  simp only [execute, operate, constraintNamed, resolve, variableNamed,
    evaluate, bind_assoc, pure_bind]
  rw [yields_lookUp_bind drafts.bound, yields_lookUp_bind bound,
    yields_bind_of_ok performed]
  exact yields_pure.mpr ⟨rfl, rfl⟩

theorem exists_drafts_setSum
    (drafts : Drafts unknowns id solver label terms total world)
    (isFinite : Scalar.isFinite sum = true) :
    ∃ after,
      (execute engine context
        (.operation (.setSum label (.literal (some sum)) .chained))).Yields
        world (.ok .itself) after ∧
        Drafts unknowns id solver label terms sum after := by
  have performed := perform_of_still engine drafts.found
    (Edit.yields_setSum off numbered terms total isFinite)
  refine ⟨_, ?_, drafts.adopt⟩
  simp only [execute, operate, constraintNamed, evaluate, pure_bind]
  rw [yields_lookUp_bind drafts.bound, yields_bind_of_ok performed]
  exact yields_pure.mpr ⟨rfl, rfl⟩

omit off numbered in
theorem executeScript_next {command : Command α} {rest : Script α}
    {reply : Reply α} {middle after : World α} {result : Ending α}
    (yields : (execute engine context command).Yields world (.ok reply) middle)
    (later : (executeScript engine context rest).Yields
      (middle.record (.commandEnded command (.ok reply))) result after) :
    (executeScript engine context (.next command false rest)).Yields world
      result after := by
  rw [executeScript, yields_outcome_bind]
  exact ⟨.ok reply, middle, yields, later⟩

theorem exists_drafts_completing (engine : Engine α) (context : Option α)
    (drafts : Drafts unknowns id solver label terms total world)
    (bound : ∀ mention ∈ mentions,
      unknowns.get? mention.label = some ⟨id, mention.target⟩)
    (checked : ∀ mention ∈ mentions,
      solver.checkVariable (.handle ⟨id, mention.target⟩) = .ok mention.target)
    (areFinite : ∀ mention ∈ mentions,
      Scalar.isFinite mention.coefficient = true)
    (isFinite : Scalar.isFinite sum = true) :
    ∃ after,
      (executeScript engine context
        (.ofList ((completingCommands label mentions sum).map fun command =>
          (command, false)))).Yields world (.ok ()) after ∧
        Drafts unknowns id solver label
          (terms.putAll (mentions.map Mention.term)) sum after := by
  induction mentions generalizing world terms with
  | nil =>
      rcases exists_drafts_setSum off numbered drafts isFinite with
        ⟨middle, set, summed⟩
      exact ⟨_, executeScript_next set (yields_pure.mpr ⟨rfl, rfl⟩),
        summed.record _⟩
  | cons mention rest induction =>
      rcases List.forall_mem_cons.mp bound with ⟨boundFirst, boundRest⟩
      rcases List.forall_mem_cons.mp checked with ⟨checkedFirst, checkedRest⟩
      rcases List.forall_mem_cons.mp areFinite with ⟨finiteFirst, finiteRest⟩
      rcases exists_drafts_setTerm off numbered drafts boundFirst checkedFirst
        finiteFirst with
        ⟨middle, set, put⟩
      rcases induction (put.record _) boundRest checkedRest finiteRest with
        ⟨after, ran, completed⟩
      exact ⟨after, executeScript_next set ran, completed⟩

end Action

/-! ## The three ways -/

omit [Scalar α] in
theorem Solver.setAuto_insertConstraint
    (auto : solver.settings.autoSolve = true) (constraint : Constraint α) :
    ((solver.setAuto false).insertConstraint constraint).setAuto true =
      solver.insertConstraint constraint := by
  have same : { solver.settings with autoSolve := true } = solver.settings := by
    rw [← auto]
  simp only [setAuto, setSettings, insertConstraint, same]

/-- A batch whose block has been carried out ends as the solve that ends it. -/
theorem Action.exists_batch (engine : Engine α) {name : String}
    {body : Script α} {middle : World α} {held : Solver α}
    (named : world.labels.solvers.get? name = some id)
    (found : world.solvers[id]? = some solver)
    (auto : solver.settings.autoSolve = true)
    (ran : (executeScript engine context body).Yields
      (world.change id fun solver => solver.setAuto false) (.ok ()) middle)
    (left : middle.solvers[id]? = some held) (unheard : held.Unheard)
    (quiet : held.Quiet) (patient : 0 < engine.patience)
    {result : Except (Failure α) (List VariableId)} {draft : Draft α}
    (written : Edit.writeSolution.Yields ⟨held.setAuto true, []⟩ result draft) :
    ∃ outcome after,
      (execute engine context (.batch name body)).Yields world outcome after ∧
      ending outcome = ending result ∧ after.solvers[id]? = some draft.solver ∧
      after.labels = middle.labels := by
  have closed :
      (middle.change id fun solver => solver.setAuto true).solvers[id]? =
        some (held.setAuto true) := World.getElem?_change_self _ left
  have closing : ∀ {outcome : Ending α} {last : World α},
      (perform engine id Edit.writeSolution).Yields
        (middle.change id fun solver => solver.setAuto true) outcome last →
      (execute engine context (.batch name body)).Yields world
        (outcome.map fun _ => .itself) last := by
    intro outcome last performed
    rw [execute, solverNamed, yields_lookUp_bind named, yields_solver_bind]
    refine .inr ⟨solver, found, ?_⟩
    simp only [yields_update_bind, yields_outcome_bind]
    refine ⟨.ok (), middle, ran, ?_⟩
    simp only [ofOutcome, yields_pure_bind, auto, if_true]
    cases outcome with
    | error failure => exact yields_bind.mpr (.inl ⟨failure, performed, rfl⟩)
    | ok value =>
        exact yields_bind.mpr
          (.inr ⟨(), last, performed, yields_pure.mpr ⟨rfl, rfl⟩⟩)
  have adopted := World.getElem?_adopt_self draft closed
  cases result with
  | error failure =>
      exact ⟨_, _, closing (perform_of_failing engine closed written), rfl,
        adopted, rfl⟩
  | ok moved =>
      have performed :=
        Session.yields_perform_writeSolution closed written unheard
          ⟨quiet.dispatching, quiet.draining, quiet.rested⟩ (.inr patient)
      refine ⟨_, _, closing performed, rfl, ?_, ?_⟩
      · rw [World.solvers_heard]
        exact adopted
      · exact World.labels_heard _ _ _

end Ways

namespace Session

section Ways

variable [Scalar α] {engine : Engine α} {context : Option α} {world : World α}
  {id : SolverId} {solver : Solver α} {mentions : List (Mention α)}

/-- A builder is given its terms one after another. -/
theorem exists_completes_builderTerms {builder : String}
    {terms : Table VariableId α} {total : α} {rest : List (Command α)}
    (found : world.solvers[id]? = some solver)
    (isBuilder : world.labels.builders.get? builder =
      some (.holding id terms total))
    (bound : ∀ mention ∈ mentions,
      world.labels.unknowns.get? mention.label = some ⟨id, mention.target⟩)
    (checked : ∀ mention ∈ mentions,
      solver.checkVariable (.handle ⟨id, mention.target⟩) =
        .ok mention.target) :
    ∃ middle : World α, middle.solvers = world.solvers ∧
      middle.labels.builders.get? builder =
        some (.holding id (terms.putAll (mentions.map Mention.term)) total) ∧
      ∀ outcome after, Completes engine context rest middle outcome after →
        Completes engine context
          ((mentions.map fun mention =>
            .operation
              (.builderTerm builder (.label mention.label)
                (.literal (some mention.coefficient)))) ++ rest) world outcome
              after := by
  induction mentions generalizing world terms with
  | nil => exact ⟨world, rfl, isBuilder, fun _ _ completes => completes⟩
  | cons mention later induction =>
      rcases List.forall_mem_cons.mp bound with ⟨boundFirst, boundLater⟩
      rcases List.forall_mem_cons.mp checked with ⟨checkedFirst, checkedLater⟩
      have stored : (Action.execute engine context _).Yields world _ _ :=
        Action.yields_builderTerm isBuilder found boundFirst checkedFirst
      have isNext := world.get?_bindBuilder builder
        (.holding id (terms.put mention.target mention.coefficient) total)
      have foundNext : (world.bindBuilder builder (.holding id
          (terms.put mention.target mention.coefficient) total)).solvers[id]? =
        some solver := found
      rcases induction foundNext isNext boundLater checkedLater with
        ⟨middle, solvers, isLast, completes⟩
      exact ⟨middle, solvers, isLast, fun outcome after done =>
        .next stored (completes outcome after done)⟩

/-- A solver outside of dispatch and without hooks that solves after each edit.
Numbered, coherent and settled are all solvers at all times at which commands
are issued (`Activity.RunsWith.numbers`, `Activity.RunsWith.coheres`,
`Activity.RunsWith.settles`). -/
structure Buildable (world : World α) (name : String) (id : SolverId)
    (solver : Solver α) :
    Prop where
  named : world.labels.solvers.get? name = some id
  found : world.solvers[id]? = some solver
  numbered : solver.id = id
  coherent : solver.Coherent
  settled : solver.Settled
  idle : solver.dispatching = false
  unheard : solver.Unheard
  auto : solver.settings.autoSolve = true

theorem Outer.buildable {patience depth : Nat} {name : String}
    (outer : Outer (.ofDepth patience depth) world)
    (named : world.labels.solvers.get? name = some id)
    (found : world.solvers[id]? = some solver) (unheard : solver.Unheard)
    (auto : solver.settings.autoSolve = true) :
    Buildable world name id solver := by
  have sound : (Engine.ofDepth patience depth : Engine α).Sound :=
    Engine.ofDepth_sound patience depth
  have quiet := outer.quiet sound id solver found
  exact
    { named, found, unheard, auto
      numbered := outer.numbered sound id solver found
      coherent := (outer.represented sound id solver found).coherent
      settled := fun _ => ⟨quiet.draining, quiet.rested⟩
      idle := quiet.dispatching }

omit [Scalar α] in
theorem Buildable.quiet {name : String}
    (buildable : Buildable world name id solver) :
    solver.Quiet :=
  ⟨buildable.idle, (buildable.settled buildable.idle).1,
    (buildable.settled buildable.idle).2⟩

/-- What building a constraint makes of a solver, apart from the values: the
constraint is the last one. Its variables stand in the order in which they were
first mentioned, each with the coefficient that was given last. -/
structure Gains (solver : Solver α) (mentions : List (Mention α)) (sum : α)
    (constraint : Constraint α) (settled : Solver α) : Prop where
  constraints : settled.constraints.entries =
    solver.constraints.entries ++
      [((solver.nextConstraint : ConstraintId), constraint)]
  nextConstraint : settled.nextConstraint = solver.nextConstraint + 1
  order : constraint.terms.keys = (mentions.map Mention.target).eraseDups
  coefficients (target : VariableId) : constraint.terms.get? target =
    (mentions.reverse.find? fun mention => mention.target = target).map
    Mention.coefficient
  sum : constraint.sum = sum
  locks (target : VariableId) : settled.lockOf target = solver.lockOf target

def stated (mentions : List (Mention α)) (sum : α) : Constraint α :=
  ⟨.gather (mentions.map Mention.term), sum, .stated⟩

theorem Buildable.checkVariable {name : String}
    (buildable : Buildable world name id solver) {mention : Mention α}
    (fits : mention.Fits world id solver) :
    solver.checkVariable (.handle ⟨id, mention.target⟩) =
      .ok mention.target := by
  have own : ¬id ≠ solver.id := fun other => other buildable.numbered.symm
  have live := (Table.contains_eq_true_iff _ _).mpr fits.live
  simp only [Solver.checkVariable, if_neg own, live, if_true]

theorem Buildable.checkTerms {name : String}
    (buildable : Buildable world name id solver)
    (fits : ∀ mention ∈ mentions, mention.Fits world id solver) (sum : α) :
    Edit.checkTerms solver (handed id (stated mentions sum).terms) =
      .ok (stated mentions sum).terms := by
  apply Edit.checkTerms_handed (Table.nodup_keys_gather _)
  · intro target member
    rcases Table.mem_keys_gather member with ⟨term, isTerm, rfl⟩
    rcases List.mem_map.mp isTerm with ⟨mention, isMention, rfl⟩
    exact buildable.checkVariable (fits mention isMention)
  · intro coefficient member
    rcases Table.mem_values_gather member with ⟨term, isTerm, rfl⟩
    rcases List.mem_map.mp isTerm with ⟨mention, isMention, rfl⟩
    exact (fits mention isMention).finite

section Ends

variable {name builder label : String} {sum : α} {draft : Draft α}
  {result : Except (Failure α) (List VariableId)}
  (buildable : Buildable world name id solver)
  (fits : ∀ mention ∈ mentions, mention.Fits world id solver)
  (isFinite : Scalar.isFinite sum = true) (patient : 0 < engine.patience)
  (written : Edit.writeSolution.Yields
    ⟨solver.insertConstraint (stated mentions sum), []⟩ result draft)
include buildable fits isFinite patient written

theorem exists_handing : ∃ outcome after,
    Completes engine context (handingCommands name label mentions sum) world
      outcome after ∧
      Settles result draft.solver label ⟨id, solver.nextConstraint⟩
        (ending outcome) after := by
  have resolved := Action.yields_resolveAll fun mention member =>
    (fits mention member).bound
  have collected : (Action.collectTerms context [] _).Yields world _ _ :=
    Action.yields_collectTerms id ∅ mentions
  rcases Action.exists_addConstraint engine buildable.found buildable.auto
    buildable.unheard buildable.quiet patient (buildable.checkTerms fits sum)
    isFinite written label with
    ⟨outcome, after, added, settles⟩
  refine ⟨outcome, after, .last ?_, settles⟩
  simp only [Action.execute, Action.operate, Action.solverNamed,
    Action.evaluate, pure_bind]
  rw [Action.yields_bind_of_ok resolved,
    Action.yields_lookUp_bind buildable.named,
    Action.yields_bind_of_ok collected]
  exact added

theorem exists_building : ∃ outcome after,
    Completes engine context (buildingCommands name builder label mentions sum)
        world outcome after ∧
      Settles result draft.solver label ⟨id, solver.nextConstraint⟩
        (ending outcome) after := by
  have begun : (Action.execute engine context _).Yields world _ _ :=
    Action.yields_newBuilder builder buildable.named
  have foundFirst : (world.bindBuilder builder (.holding id ∅ 0)).solvers[id]? =
      some solver :=
    buildable.found
  rcases exists_completes_builderTerms foundFirst
    (world.get?_bindBuilder builder _)
    (fun mention member => (fits mention member).bound)
    (fun mention member => buildable.checkVariable (fits mention member)) with
    ⟨middle, solvers, isBuilder, completes⟩
  have summed : (Action.execute engine context _).Yields middle _ _ :=
    Action.yields_builderSum isBuilder sum
  rcases Action.yields_build (middle.get?_bindBuilder builder _) with
    ⟨spent, builds⟩
  have found :
      ((middle.bindBuilder builder
        (.holding id (stated mentions sum).terms sum)).bindBuilder builder
        spent).solvers[id]? = some solver :=
    (congrArg (·[id]?) solvers).trans foundFirst
  rcases Action.exists_addConstraint engine found buildable.auto
    buildable.unheard buildable.quiet patient (buildable.checkTerms fits sum)
    isFinite written label with
    ⟨outcome, after, added, settles⟩
  refine ⟨outcome, after, .next begun (completes outcome after ?_), settles⟩
  exact .next summed (.last (builds outcome after added))

theorem exists_batching [FiniteUnits α] : ∃ outcome after,
    Completes engine context (batchCommands name label mentions sum) world
      outcome after ∧
      Settles result draft.solver label ⟨id, solver.nextConstraint⟩
        (ending outcome) after := by
  have opened :=
    World.getElem?_change_self (fun solver => solver.setAuto false)
      buildable.found
  have named :
      (world.change id fun solver => solver.setAuto false).labels.solvers.get?
        name = some id := buildable.named
  have numbered : (solver.setAuto false).id = id := buildable.numbered
  have checked : ∀ mention ∈ mentions, (solver.setAuto false).checkVariable
      (.handle ⟨id, mention.target⟩) = .ok mention.target :=
    fun mention member => buildable.checkVariable (fits mention member)
  rcases Action.exists_drafts_addConstraint rfl engine context label named
    opened with
    ⟨reply, first, added, drafts⟩
  have recorded :=
    drafts.record
      (.commandEnded
        (.operation (.addConstraint name (some label) [] (.literal (some 0))))
        (.ok reply))
  rcases Action.exists_drafts_completing rfl numbered engine context recorded
    (fun mention member => (fits mention member).bound) checked
    (fun mention member => (fits mention member).finite) isFinite with
    ⟨middle, ran, completed⟩
  rw [← Solver.setAuto_insertConstraint buildable.auto] at written
  have quiet := buildable.quiet
  rcases Action.exists_batch engine buildable.named buildable.found
    buildable.auto (Action.executeScript_next added ran) completed.found
    buildable.unheard ⟨quiet.dispatching, quiet.draining, quiet.rested⟩ patient
    written with
    ⟨outcome, after, batched, ends, found, labels⟩
  refine ⟨outcome, after, .last batched, ends, fun _ => found, fun _ => ?_⟩
  rw [labels]
  exact completed.bound

end Ends

/-- Commands end in one way only. -/
theorem Completes.unique {commands : List (Command α)}
    {outcome other : Except (Failure α) (Reply α)} {after final : World α}
    (completes : Completes engine context commands world outcome after)
    (again : Completes engine context commands world other final) :
    other = outcome ∧ final = after := by
  induction completes with
  | last yields =>
      cases again with
      | last same => exact yields.unique same
      | next _ rest => cases rest
  | next yields rest induction =>
      cases again with
      | last _ => cases rest
      | next same later =>
          rcases yields.unique same with ⟨_, rfl⟩
          exact induction later

theorem gains_of_writes {sum : α} {settled : Solver α}
    {result : Except (Failure α) (List VariableId)} (coherent : solver.Coherent)
    (writes : (solver.insertConstraint (stated mentions sum)).Writes result
      settled) :
    Gains solver mentions sum (stated mentions sum) settled := by
  constructor
  · rw [writes.constraints, Solver.insertConstraint,
      Table.put_of_not_mem coherent.fresh_constraint]
  · cases writes <;> rfl
  · rw [stated, Table.keys_gather, List.map_map]
    rfl
  · intro target
    rw [stated, Table.get?_gather, ← List.map_reverse, List.find?_map,
      Option.map_map]
    rfl
  · rfl
  · intro target
    cases writes with
    | deferred _ | unassembled _ _ | refused _ _ _ _ => rfl
    | written _ _ _ => exact Solver.lockOf_storePoint _ _ target

/-- All ways of building a constraint agree, whatever the arithmetic. Beginning
with the same solver, a builder that is given terms one after another, the
dictionary of these terms, and a batch in which a constraint is given them one
after another all end as one and the same solve does. If that is no failure,
they leave the same solver behind, and the label bound to the same constraint:
it has the variables in the order in which they were first mentioned, each with
the coefficient that was given last. -/
theorem building_agrees [FiniteUnits α] {name : String} {sum : α}
    (buildable : Buildable world name id solver)
    (fits : ∀ mention ∈ mentions, mention.Fits world id solver)
    (isFinite : Scalar.isFinite sum = true) (patient : 0 < engine.patience)
    (context : Option α) (builder label : String) :
    ∃ constraint result settled,
      (solver.insertConstraint constraint).Writes result settled ∧
      Gains solver mentions sum constraint settled ∧
      ∀ commands ∈ [buildingCommands name builder label mentions sum,
          handingCommands name label mentions sum,
          batchCommands name label mentions sum],
        (∃ outcome after,
          Completes engine context commands world outcome after) ∧
        ∀ outcome after, Completes engine context commands world outcome after →
            Settles result settled label ⟨id, solver.nextConstraint⟩
              (ending outcome) after := by
  rcases run :
    Edit.writeSolution.run ⟨solver.insertConstraint (stated mentions sum),
      []⟩ with
    ⟨result, draft⟩
  have writes := (Edit.writeSolution_cases run).1
  refine ⟨stated mentions sum, result, draft.solver, writes,
    gains_of_writes buildable.coherent writes, ?_⟩
  have only : ∀ commands,
      (∃ outcome after, Completes engine context commands world outcome after ∧
        Settles result draft.solver label ⟨id, solver.nextConstraint⟩
          (ending outcome) after) →
      (∃ outcome after, Completes engine context commands world outcome after) ∧
        ∀ outcome after, Completes engine context commands world outcome after →
          Settles result draft.solver label ⟨id, solver.nextConstraint⟩
            (ending outcome) after := by
    rintro commands ⟨outcome, after, completes, settles⟩
    refine ⟨⟨outcome, after, completes⟩, fun other final again => ?_⟩
    rcases completes.unique again with ⟨rfl, rfl⟩
    exact settles
  simp only [List.forall_mem_cons]
  refine ⟨only _ ?_, only _ ?_, only _ ?_, by simp⟩
  · exact exists_building buildable fits isFinite patient run
  · exact exists_handing buildable fits isFinite patient run
  · exact exists_batching buildable fits isFinite patient run

end Ways

/-- Two variables that one constraint relates. `x` has a second label, and `y`
is locked. -/
def relatedWorld : World Float :=
  ((play (.ofDepth 9 3) .empty
    [.operation (.newSolver "s" true true (.literal (some 0)) 10),
      .operation (.addVariable "s" "x" none (.literal (some 1))),
      .operation (.addVariable "s" "y" none (.literal (some 2))),
      .operation (.variableHandle "s" 0 "again"),
      .operation (.addConstraint "s" none [(.label "x", .literal (some 1)),
        (.label "y", .literal (some 1))] (.literal (some 3))),
      .operation (.lock "y")]).getLast?.map Step.world).getD .empty

/-- `x` is mentioned twice, by either label. -/
def repeatedMentions : List (Mention Float) :=
  [⟨"x", 0, 5⟩, ⟨"y", 1, 2⟩, ⟨"again", 0, 4⟩]

theorem building_agrees_relatedWorld :
    ∃ solver, Buildable relatedWorld "s" 0 solver ∧
      (∀ mention ∈ repeatedMentions, mention.Fits relatedWorld 0 solver) ∧
      Scalar.isFinite (8 : Float) = true ∧
      0 < (Engine.ofDepth 9 3 : Engine Float).patience ∧
      ∃ constraint result settled,
        (solver.insertConstraint constraint).Writes result settled ∧
        Gains solver repeatedMentions 8 constraint settled ∧
        constraint.terms.keys = [0, 1] ∧ constraint.terms.get? 0 = some 4 ∧
        (∃ moved, result = .ok moved) ∧
        ∀ commands ∈ [buildingCommands "s" "b" "c" repeatedMentions 8,
            handingCommands "s" "c" repeatedMentions 8,
            batchCommands "s" "c" repeatedMentions 8],
          (∃ outcome after,
            Completes (.ofDepth 9 3) none commands relatedWorld outcome after) ∧
          ∀ outcome after,
              Completes (.ofDepth 9 3) none commands relatedWorld outcome
                after →
                Settles result settled "c" ⟨0, solver.nextConstraint⟩
                  (ending outcome) after := by
  have isThere : relatedWorld.solvers[0]?.isSome = true := by decide +kernel
  have suited : ∀ solver ∈ relatedWorld.solvers[0]?,
      (∀ contents ∈ solver.unknowns.values, contents.hook = none) ∧
        solver.settings.autoSolve = true ∧ ∀ mention ∈ repeatedMentions,
          relatedWorld.labels.unknowns.get? mention.label =
            some ⟨0, mention.target⟩ ∧ mention.target ∈ solver.unknowns.keys ∧
            Scalar.isFinite mention.coefficient = true := by
    decide +kernel
  have isFinite : Scalar.isFinite (8 : Float) = true := by decide +kernel
  have succeeds :
      ((Action.execute (.ofDepth 9 3) none
        (.operation
          (.addConstraint "s" (some "c") (repeatedMentions.map fun mention =>
        (.label mention.label, .literal (some mention.coefficient)))
      (.literal (some 8))))).done? relatedWorld).isSome = true := by
    decide +kernel
  rcases Option.isSome_iff_exists.mp isThere with ⟨solver, found⟩
  rcases Option.isSome_iff_exists.mp succeeds with ⟨⟨reply, after⟩, done⟩
  rcases suited solver found with ⟨unheard, auto, mentioned⟩
  have outer : Outer (.ofDepth 9 3) relatedWorld :=
    outer_of_reached (.of_last _ _)
  have buildable : Buildable relatedWorld "s" 0 solver :=
    outer.buildable (by decide +kernel) found unheard auto
  have fits : ∀ mention ∈ repeatedMentions,
      mention.Fits relatedWorld 0 solver := by
    intro mention member
    rcases mentioned mention member with ⟨bound, live, finite⟩
    exact ⟨bound, live, finite⟩
  have patient : 0 < (Engine.ofDepth 9 3 : Engine Float).patience :=
    Nat.succ_pos 8
  rcases building_agrees buildable fits isFinite patient none "b" "c" with
    ⟨constraint, result, settled, writes, gains, agree⟩
  have handed :
      Completes (.ofDepth 9 3) none (handingCommands "s" "c" repeatedMentions 8)
        relatedWorld (.ok reply) after := .last (Action.yields_of_done? done)
  have ends := ((agree _ (by simp)).2 _ _ handed).ending
  refine ⟨solver, buildable, fits, isFinite, patient, constraint, result,
    settled, writes, gains, ?_, ?_, ?_, agree⟩
  · rw [gains.order]
    decide
  · rw [gains.coefficients]
    rfl
  · cases result with
    | error failure => cases ends
    | ok moved => exact ⟨moved, rfl⟩

end Session

end LiveLinear
