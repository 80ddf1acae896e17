import LiveLinear.Proofs.Solver.Coherence
import Mathlib.Data.List.Induction

namespace LiveLinear

/-! # Gathering terms

Pairs of variables and coefficients that are stored one after another come to
one table, whatever they are stored in: a variable that comes again keeps its
first place and has its last coefficient. -/

namespace Table

variable {κ : Type u} {κ' : Type v} {β : Type w} {β' : Type x}

def rename (key : κ → κ') (value : β → β') (table : Table κ β) : Table κ' β' :=
  ⟨table.entries.map (Prod.map key value)⟩

variable [DecidableEq κ]

def putAll (table : Table κ β) (pairs : List (κ × β)) : Table κ β :=
  pairs.foldl (fun table pair => table.put pair.1 pair.2) table

def gather (pairs : List (κ × β)) : Table κ β :=
  empty.putAll pairs

example : gather [(2, "a"), (5, "b"), (2, "c")] = ⟨[(2, "c"), (5, "b")]⟩ :=
  rfl

/-- Where keys are told apart, storing does not mind how they are written. -/
theorem put_rename [DecidableEq κ'] {key : κ → κ'}
    (injective : Function.Injective key) (value : β → β') (table : Table κ β)
    (stored : κ) (content : β) :
    (table.rename key value).put (key stored) (value content) =
      (table.put stored content).rename key value := by
  have isKey : key stored ∈ (table.rename key value).keys ↔
      stored ∈ table.keys := by
    simp [keys, rename, injective.eq_iff]
  by_cases present : stored ∈ table.keys
  · rw [put_of_mem (isKey.mpr present), put_of_mem present]
    simp only [modify, rename, List.map_map]
    congr 1
    apply List.map_congr_left
    intro entry _
    by_cases same : entry.1 = stored <;> simp [same, injective.eq_iff]
  · rw [put_of_not_mem fun member => present (isKey.mp member),
      put_of_not_mem present]
    simp [rename]

theorem modify_of_not_mem {table : Table κ β} {key : κ}
    (absent : key ∉ table.keys) (change : β → β) :
    table.modify key change = table := by
  have same : ∀ entry ∈ table.entries,
      (if entry.1 = key then (entry.1, change entry.2) else entry) =
        id entry := by
    intro entry member
    apply if_neg
    rintro rfl
    exact absent (List.mem_map_of_mem member)
  rw [modify, List.map_congr_left same, List.map_id]

theorem modify_put (table : Table κ β) (key : κ) (content : β)
    (change : β → β) :
    (table.put key content).modify key change =
      table.put key (change content) := by
  by_cases present : key ∈ table.keys
  · rw [put_of_mem present, put_of_mem present, modify_modify]
    rfl
  · have others := congrArg Table.entries (modify_of_not_mem present change)
    rw [put_of_not_mem present, put_of_not_mem present, modify, List.map_append]
    exact congrArg Table.mk (congrArg₂ _ others (by simp))

theorem gather_concat (pairs : List (κ × β)) (pair : κ × β) :
    gather (pairs ++ [pair]) = (gather pairs).put pair.1 pair.2 := by
  simp only [gather, putAll, List.foldl_append, List.foldl_cons, List.foldl_nil]

theorem keys_gather (pairs : List (κ × β)) :
    (gather pairs).keys = (pairs.map Prod.fst).eraseDups := by
  induction pairs using List.reverseRecOn with
  | nil => rfl
  | append_singleton pairs pair induction =>
      have isKey : pair.1 ∈ (gather pairs).keys ↔
          pair.1 ∈ pairs.map Prod.fst := by
        rw [induction, List.mem_eraseDups]
      rw [gather_concat, keys_put, List.map_append, List.eraseDups_append,
        ← induction]
      by_cases present : pair.1 ∈ pairs.map Prod.fst
      · rw [if_pos (isKey.mpr present)]
        simp [List.removeAll, present]
      · rw [if_neg fun member => present (isKey.mp member)]
        simp [List.removeAll, present, List.eraseDups_cons]

theorem get?_gather (pairs : List (κ × β)) (key : κ) :
    (gather pairs).get? key =
      (pairs.reverse.find? fun pair => decide (pair.1 = key)).map Prod.snd := by
  induction pairs using List.reverseRecOn with
  | nil => rfl
  | append_singleton pairs pair induction =>
      rw [gather_concat, get?_put, List.reverse_append, List.reverse_singleton,
        List.singleton_append, List.find?_cons, induction]
      by_cases same : pair.1 = key
      · simp [same]
      · simp [same, Ne.symm same]

theorem nodup_keys_gather (pairs : List (κ × β)) :
    (gather pairs).keys.Nodup := by
  induction pairs using List.reverseRecOn with
  | nil => exact List.nodup_nil
  | append_singleton pairs pair induction =>
      rw [gather_concat]
      exact nodup_keys_put induction _ _

theorem mem_keys_gather {pairs : List (κ × β)} {key : κ}
    (member : key ∈ (gather pairs).keys) :
    ∃ pair ∈ pairs, pair.1 = key := by
  rw [keys_gather, List.mem_eraseDups] at member
  exact List.mem_map.mp member

theorem mem_values_gather {pairs : List (κ × β)} {content : β}
    (member : content ∈ (gather pairs).values) : ∃ pair ∈ pairs,
      pair.2 = content := by
  induction pairs using List.reverseRecOn with
  | nil => cases member
  | append_singleton pairs pair induction =>
      rw [gather_concat] at member
      rcases mem_values_put member with old | rfl
      · rcases induction old with ⟨other, isOther, same⟩
        exact ⟨other, List.mem_append_left _ isOther, same⟩
      · exact ⟨pair, by simp, rfl⟩

end Table

variable {α : Type}

/-! ## Terms as they are handed over -/

def handed (id : SolverId) (terms : Table VariableId α) :
    List (Argument × Option α) :=
  terms.entries.map fun term => (.handle ⟨id, term.1⟩, some term.2)

theorem insert_handed (id : SolverId) (terms : Table VariableId α)
    (target : VariableId) (coefficient : α) :
    Argument.insert (handed id terms) (.handle ⟨id, target⟩)
      (some coefficient) = handed id (terms.put target coefficient) := by
  have same : ∀ other : VariableId,
      Argument.same (.handle ⟨id, target⟩) (.handle ⟨id, other⟩) =
        decide (other = target) := by
    intro other
    simp [Argument.same, eq_comm]
  have isThere : ((handed id terms).any fun pair =>
      Argument.same (.handle ⟨id, target⟩) pair.1) = terms.contains target := by
    simp only [handed, List.any_map, Table.contains, Function.comp_def, same]
  rw [Argument.insert, isThere, Table.put]
  split
  · simp only [handed, Table.modify, List.map_map]
    apply List.map_congr_left
    intro term _
    simp only [Function.comp_apply, same, decide_eq_true_eq]
    split <;> rfl
  · simp [handed]

namespace Edit

variable [Scalar α] {solver : Solver α} {id : SolverId}

/-- Terms of live variables with finite coefficients are stored as they are
handed over. -/
theorem checkTerms_handed {terms : Table VariableId α}
    (nodup : terms.keys.Nodup)
    (live : ∀ target ∈ terms.keys,
      solver.checkVariable (.handle ⟨id, target⟩) = .ok target)
    (areFinite : ∀ coefficient ∈ terms.values,
      Scalar.isFinite coefficient = true) :
    checkTerms solver (handed id terms) = .ok terms := by
  have onward : ∀ (entries stored : List (VariableId × α)),
      ((stored ++ entries).map Prod.fst).Nodup →
      (∀ target ∈ entries.map Prod.fst,
        solver.checkVariable (.handle ⟨id, target⟩) = .ok target) →
      (∀ coefficient ∈ entries.map Prod.snd,
        Scalar.isFinite coefficient = true) →
      (handed id ⟨entries⟩).foldlM
        (fun (stored : Table VariableId α) term => do
          let coefficient ← finite .coefficient term.2
          let id ← solver.checkVariable term.1
          return stored.put id coefficient) ⟨stored⟩ =
        (.ok ⟨stored ++ entries⟩ :
          Except (Failure α) (Table VariableId α)) := by
    intro entries
    induction entries with
    | nil =>
        intro stored _ _ _
        rw [List.append_nil]
        rfl
    | cons entry rest induction =>
        intro stored nodup live areFinite
        have fresh : entry.1 ∉ (⟨stored⟩ : Table VariableId α).keys := by
          rw [List.map_append, List.nodup_append] at nodup
          exact fun member => nodup.2.2 entry.1 member entry.1 (by simp) rfl
        have first := live entry.1 (by simp)
        have isFinite := areFinite entry.2 (by simp)
        have later := induction (stored ++ [entry]) (by simpa using nodup)
          (fun target member => live target (List.mem_cons_of_mem _ member))
          (fun coefficient member =>
            areFinite coefficient (List.mem_cons_of_mem _ member))
        rw [handed, List.map_cons, List.foldlM_cons]
        simp only [finite, isFinite, if_true, first, bind, Except.bind, pure,
          Except.pure, Table.put_of_not_mem fresh]
        rw [List.append_assoc, List.singleton_append] at later
        exact later
  exact onward terms.entries [] nodup live areFinite

end Edit

namespace Solver

theorem modifyConstraint_insertConstraint (solver : Solver α)
    (constraint : Constraint α) (change : Constraint α → Constraint α) :
    (solver.insertConstraint constraint).modifyConstraint solver.nextConstraint
      change = solver.insertConstraint (change constraint) := by
  simp only [modifyConstraint, insertConstraint, Table.modify_put]

theorem get?_insertConstraint (solver : Solver α) (constraint : Constraint α) :
    (solver.insertConstraint constraint).constraints.get?
      solver.nextConstraint = some constraint :=
  Table.get?_put_self _ _ _

theorem constraintAt_insertConstraint {solver : Solver α} {id : SolverId}
    (numbered : solver.id = id) (constraint : Constraint α) :
    (solver.insertConstraint constraint).constraintAt
      ⟨id, solver.nextConstraint⟩ = .ok constraint :=
  constraintAt_of_get? numbered (solver.get?_insertConstraint constraint)

end Solver

end LiveLinear
