import LiveLinear.Proofs.Solver.Upkeep

namespace LiveLinear

/-! # What moves

The variables that a task or an item of deferred work answers to have moved:
each of them once, and all of them live. -/

variable {α : Type}

namespace Solver

variable {solver after : Solver α}

def Lists (solver : Solver α) (ids : List VariableId) : Prop :=
  ids.Nodup ∧ ∀ id ∈ ids, id ∈ solver.unknowns.keys

theorem lists_nil (solver : Solver α) : solver.Lists [] :=
  ⟨List.nodup_nil, by simp⟩

theorem keys_eq_map_entry (solver : Solver α) :
    solver.unknowns.keys =
      (List.finRange solver.unknowns.size).map fun column =>
        (solver.unknowns.entry column).1 := by
  apply List.ext_getElem
  · simp [Table.keys, Table.size]
  · intro index _ _
    simp only [Table.keys, Table.entry, List.getElem_map, List.getElem_finRange]
    rfl

variable [Scalar α]

theorem moved_sublist (solver : Solver α) (tolerance : α)
    (target : Vector α solver.unknowns.size) :
    (solver.moved tolerance target).Sublist solver.unknowns.keys := by
  rw [keys_eq_map_entry, moved]
  generalize List.finRange solver.unknowns.size = columns
  induction columns with
  | nil => exact List.Sublist.refl _
  | cons column rest induction =>
      simp only [List.filterMap_cons, List.map_cons]
      split
      · exact induction.cons _
      · next moved isMoved =>
          split at isMoved
          · cases isMoved
            exact induction.cons_cons _
          · cases isMoved

theorem Writes.lists {moved : List VariableId}
    (writes : solver.Writes (.ok moved) after) (coherent : solver.Coherent) :
    after.Lists moved := by
  cases writes with
  | deferred _ => exact lists_nil _
  | written _ _ _ =>
      have sublist := solver.moved_sublist
      refine ⟨coherent.unknownsNodup.sublist (sublist _ _), fun id member => ?_⟩
      have same := Coherent.keys_storePoint solver
      rw [same]
      exact (sublist _ _).subset member

theorem Writes.keys_eq {result : Except (Failure α) (List VariableId)}
    (writes : solver.Writes result after) :
    after.unknowns.keys = solver.unknowns.keys := by
  cases writes with
  | deferred _ | unassembled _ _ | refused _ _ _ _ => rfl
  | written _ _ _ => exact Coherent.keys_storePoint solver _

@[simp] theorem keys_letGo_ok (solver : Solver α) (id : VariableId)
    (former : Variable α) (moved : List VariableId) :
    (solver.letGo id former (.ok moved)).unknowns.keys =
      solver.unknowns.keys := by
  simp only [letGo]
  split
  · rfl
  · exact keys_release solver id

end Solver

variable [Scalar α]

namespace Draft

variable {before after : Draft α} {moved : List VariableId}

theorem lists_of_applyValue {id : VariableId} {value : α}
    (coherent : before.solver.Coherent)
    (yields : (Edit.applyValue id value).Yields before (.ok moved) after) :
    after.solver.Lists moved := by
  have applies := Edit.applyValue_cases yields
  generalize isResult : Except.ok moved = result at applies
  cases applies with
  | absent _ | noNews _ _ _ =>
      cases isResult
      exact Solver.lists_nil _
  | unread _ _ => cases isResult
  | @held former _ outcome middle found _ _ written =>
      cases outcome with
      | error failure => cases isResult
      | ok others =>
          cases isResult
          have held := Solver.coherent_holdAt coherent id value
          have live : id ∈ (before.solver.holdAt id value).unknowns.keys := by
            rw [Solver.keys_holdAt]
            exact Table.mem_keys_of_get? found
          have listed : middle.solver.Lists others ∧
              id ∈ middle.solver.unknowns.keys := by
            rcases Edit.writeIfAuto_cases written with
              ⟨_, writes⟩ | ⟨_, same, rfl⟩
            · refine ⟨writes.lists held, ?_⟩
              rw [writes.keys_eq]
              exact live
            · cases same
              exact ⟨Solver.lists_nil _, live⟩
          rcases listed with ⟨⟨nodup, othersLive⟩, idLive⟩
          constructor
          · refine (nodup.filter _).append (List.nodup_singleton id) ?_
            intro other inOthers isId
            rw [List.mem_singleton] at isId
            simp [isId] at inOthers
          · intro other member
            rw [Solver.keys_letGo_ok]
            rcases List.mem_append.mp member with inOthers | isId
            · exact othersLive other (List.mem_of_mem_filter inOthers)
            · rw [List.mem_singleton.mp isId]
              exact idLive

theorem Moves.lists (moves : before.Moves moved after)
    (coherent : before.solver.Coherent) :
    after.solver.Lists moved := by
  cases moves with
  | wrote yields => exact (Edit.writeSolution_cases yields).1.lists coherent
  | applied _ yields => exact lists_of_applyValue coherent yields

end Draft

theorem Task.lists_moved {task : Task α} {before after : Draft α}
    {moved : List VariableId} (coherent : before.solver.Coherent)
    (yields : task.edit.Yields before (.ok moved) after) :
    after.solver.Lists moved := by
  by_cases nothing : moved = []
  · rw [nothing]
    exact Solver.lists_nil _
  · rcases (task.edit_composed _ _ _ yields).moves moved rfl nothing with
      ⟨middle, pieced, moves⟩
    have evolves := pieced.keeps Draft.Evolves.lasting Draft.Piece.evolves
    exact moves.lists (evolves.coherent coherent)

theorem Solver.lists_of_nextDeferred {solver : Solver α} {after : Draft α}
    {work : Edit α (List VariableId)} {moved : List VariableId}
    (coherent : solver.Coherent) (next : solver.nextDeferred = some work)
    (yields : work.Yields ⟨solver, []⟩ (.ok moved) after) :
    after.solver.Lists moved := by
  rcases nextDeferred_cases next with ⟨target, value, rest, _, rfl⟩
    | ⟨_, _, rfl⟩
  · have popped : { solver with deferred := rest }.Coherent := coherent
    exact Draft.lists_of_applyValue popped yields
  · exact (Edit.writeSolution_cases yields).1.lists coherent

end LiveLinear
