import LiveLinear.Solver.Edit

namespace LiveLinear

/-! # What an edit yields

An edit turns a draft into a result and another draft. Here is how the pieces
that edits are made of take a draft apart, and when an edit keeps a relation
between the draft it starts from and the one it leaves. -/

namespace Edit

variable {α β γ : Type}

/-- Run from `before`, the edit ends with `result` and leaves `after`. -/
def Yields (edit : Edit α β) (before : Draft α) (result : Except (Failure α) β)
    (after : Draft α) : Prop :=
  edit.run before = (result, after)

theorem yields_run (edit : Edit α β) (before : Draft α) :
    edit.Yields before (edit.run before).1 (edit.run before).2 :=
  rfl

section Pieces

variable {before after : Draft α}

@[simp] theorem yields_pure {value : β} {result : Except (Failure α) β} :
    (pure value : Edit α β).Yields before result after ↔
      result = .ok value ∧ after = before := by
  constructor
  · intro yields
    cases yields
    exact ⟨rfl, rfl⟩
  · rintro ⟨rfl, rfl⟩
    rfl

@[simp] theorem yields_throw {failure : Failure α}
    {result : Except (Failure α) β} :
    (throw failure : Edit α β).Yields before result after ↔
      result = .error failure ∧ after = before := by
  constructor
  · intro yields
    cases yields
    exact ⟨rfl, rfl⟩
  · rintro ⟨rfl, rfl⟩
    rfl

theorem run_bind (edit : Edit α β) (next : β → Edit α γ) (before : Draft α) :
    (edit >>= next).run before =
      match edit.run before with
      | (.ok value, middle) => (next value).run middle
      | (.error failure, middle) => (.error failure, middle) := by
  unfold ExceptT.run
  simp only [bind, ExceptT.bind, ExceptT.mk, StateT.bind]
  rcases edit before with ⟨outcome, middle⟩
  cases outcome <;> rfl

/-- A sequence fails with its first part, or goes on from what that left. -/
theorem yields_bind {edit : Edit α β} {next : β → Edit α γ}
    {result : Except (Failure α) γ} :
    (edit >>= next).Yields before result after ↔
      (∃ failure, edit.Yields before (.error failure) after ∧
        result = .error failure) ∨ ∃ value middle,
      edit.Yields before (.ok value) middle ∧
          (next value).Yields middle result after := by
  simp only [Yields, run_bind]
  rcases edit.run before with ⟨outcome, middle⟩
  cases outcome with
  | error failure =>
      constructor
      · intro equal
        cases equal
        exact .inl ⟨failure, rfl, rfl⟩
      · rintro (⟨_, equal, rfl⟩ | ⟨_, _, impossible, _⟩)
        · cases equal
          rfl
        · cases impossible
  | ok value =>
      constructor
      · intro equal
        exact .inr ⟨value, middle, rfl, equal⟩
      · rintro (⟨_, impossible, _⟩ | ⟨_, _, equal, later⟩)
        · cases impossible
        · cases equal
          exact later

theorem yields_bind_pure {edit : Edit α β} {compute : β → γ}
    {result : Except (Failure α) γ} :
    (edit >>= fun value => pure (compute value)).Yields before result after ↔
      ∃ outcome, edit.Yields before outcome after ∧
        result = outcome.map compute := by
  rw [yields_bind]
  constructor
  · rintro (⟨failure, failed, rfl⟩ | ⟨value, middle, done, rest⟩)
    · exact ⟨_, failed, rfl⟩
    · rcases yields_pure.mp rest with ⟨rfl, rfl⟩
      exact ⟨_, done, rfl⟩
  · rintro ⟨outcome, yields, rfl⟩
    cases outcome with
    | error failure => exact .inl ⟨failure, yields, rfl⟩
    | ok value => exact .inr ⟨value, after, yields, yields_pure.mpr ⟨rfl, rfl⟩⟩

@[simp] theorem yields_current {result : Except (Failure α) (Solver α)} :
    (current : Edit α (Solver α)).Yields before result after ↔
      result = .ok before.solver ∧ after = before := by
  constructor
  · intro yields
    cases yields
    exact ⟨rfl, rfl⟩
  · rintro ⟨rfl, rfl⟩
    rfl

@[simp] theorem yields_update {change : Solver α → Solver α}
    {result : Except (Failure α) Unit} :
    (update change).Yields before result after ↔
      result = .ok () ∧
      after = { before with solver := change before.solver } := by
  constructor
  · intro yields
    cases yields
    exact ⟨rfl, rfl⟩
  · rintro ⟨rfl, rfl⟩
    rfl

@[simp] theorem yields_note {note : Note α} {result : Except (Failure α) Unit} :
    (Edit.note note).Yields before result after ↔
      result = .ok () ∧
      after = { before with notes := note :: before.notes } := by
  constructor
  · intro yields
    cases yields
    exact ⟨rfl, rfl⟩
  · rintro ⟨rfl, rfl⟩
    rfl

@[simp] theorem yields_ofOutcome {outcome result : Except (Failure α) β} :
    (ofOutcome outcome).Yields before result after ↔
      result = outcome ∧ after = before := by
  cases outcome <;> simp [ofOutcome]

@[simp] theorem yields_check {condition : Solver α → Except (Failure α) β}
    {result : Except (Failure α) β} :
    (check condition).Yields before result after ↔
      result = condition before.solver ∧ after = before := by
  have unfolded : (check condition).Yields before result after ↔
      (ofOutcome (condition before.solver)).Yields before result after :=
      Iff.rfl
  rw [unfolded, yields_ofOutcome]

@[simp] theorem yields_outcome {edit : Edit α β}
    {result : Except (Failure α) (Except (Failure α) β)} :
    edit.outcome.Yields before result after ↔
      ∃ outcome, edit.Yields before outcome after ∧ result = .ok outcome := by
  have unfolded :
      edit.outcome.run before =
        (.ok (edit.run before).1, (edit.run before).2) :=
    rfl
  rw [Yields, unfolded]
  constructor
  · intro equal
    cases equal
    exact ⟨_, rfl, rfl⟩
  · rintro ⟨outcome, yields, rfl⟩
    rw [yields]

/-! Parts that cannot fail are passed over; parts that only look at the draft
decide whether the sequence goes on. -/

section Sequences

variable {next : β → Edit α γ} {result : Except (Failure α) γ}

@[simp] theorem yields_pure_bind {value : β} :
    (pure value >>= next).Yields before result after ↔
      (next value).Yields before result after :=
  Iff.rfl

@[simp] theorem yields_throw_bind {failure : Failure α} :
    ((throw failure : Edit α β) >>= next).Yields before result after ↔
      result = .error failure ∧ after = before :=
  yields_throw

@[simp] theorem yields_current_bind {next : Solver α → Edit α γ} :
    (current >>= next).Yields before result after ↔
      (next before.solver).Yields before result after :=
  Iff.rfl

@[simp] theorem yields_update_bind {change : Solver α → Solver α}
    {next : Unit → Edit α γ} :
    (update change >>= next).Yields before result after ↔
      (next ()).Yields { before with solver := change before.solver } result
        after :=
  Iff.rfl

@[simp] theorem yields_note_bind {note : Note α} {next : Unit → Edit α γ} :
    (Edit.note note >>= next).Yields before result after ↔
      (next ()).Yields { before with notes := note :: before.notes } result
        after :=
  Iff.rfl

theorem yields_ofOutcome_bind {outcome : Except (Failure α) β} :
    (ofOutcome outcome >>= next).Yields before result after ↔
      (∃ failure, outcome = .error failure ∧ result = .error failure ∧
        after = before) ∨ ∃ value, outcome = .ok value ∧
      (next value).Yields before result after := by
  cases outcome with
  | error failure => simp [ofOutcome]
  | ok value => simp [ofOutcome]

theorem yields_check_bind {condition : Solver α → Except (Failure α) β} :
    (check condition >>= next).Yields before result after ↔
      (∃ failure, condition before.solver = .error failure ∧
          result = .error failure ∧ after = before) ∨
        ∃ value, condition before.solver = .ok value ∧
          (next value).Yields before result after := by
  have unfolded : (check condition >>= next).Yields before result after ↔
      (ofOutcome (condition before.solver) >>= next).Yields before result
      after := Iff.rfl
  rw [unfolded, yields_ofOutcome_bind]

theorem yields_check_bind_of_ok {condition : Solver α → Except (Failure α) β}
    {value : β} (passed : condition before.solver = .ok value) :
    (check condition >>= next).Yields before result after ↔
      (next value).Yields before result after := by
  simp [yields_check_bind, passed]

/-! A sequence that succeeds has succeeded in its first part. -/

theorem yields_bind_ok {edit : Edit α β} {value : γ} :
    (edit >>= next).Yields before (.ok value) after ↔
      ∃ first middle, edit.Yields before (.ok first) middle ∧
        (next first).Yields middle (.ok value) after := by
  rw [yields_bind]
  constructor
  · rintro (⟨_, _, impossible⟩ | done)
    · cases impossible
    · exact done
  · exact .inr

theorem yields_ofOutcome_bind_ok {outcome : Except (Failure α) β} {value : γ} :
    (ofOutcome outcome >>= next).Yields before (.ok value) after ↔
      ∃ first, outcome = .ok first ∧
        (next first).Yields before (.ok value) after := by
  cases outcome with
  | error failure => simp [ofOutcome]
  | ok first => simp [ofOutcome]

theorem yields_check_bind_ok {condition : Solver α → Except (Failure α) β}
    {value : γ} :
    (check condition >>= next).Yields before (.ok value) after ↔
      ∃ first, condition before.solver = .ok first ∧
        (next first).Yields before (.ok value) after :=
  yields_ofOutcome_bind_ok

end Sequences

/-- An edit with a clean-up ends as the edit does, cleaned up. -/
theorem yields_ensuring {edit : Edit α β} {cleanup : Solver α → Solver α}
    {result : Except (Failure α) β} :
    (edit.ensuring cleanup).Yields before result after ↔
      ∃ middle, edit.Yields before result middle ∧
        after = { middle with solver := cleanup middle.solver } := by
  have unfolded : (edit.ensuring cleanup).run before =
      ((edit.run before).1,
        { (edit.run before).2 with
          solver := cleanup (edit.run before).2.solver }) := by
    unfold ensuring
    rw [run_bind, (yields_outcome.mpr ⟨_, yields_run edit before, rfl⟩ : _ = _)]
    cases (edit.run before).1 <;> rfl
  rw [Yields, unfolded]
  constructor
  · intro equal
    cases equal
    exact ⟨_, rfl, rfl⟩
  · rintro ⟨middle, yields, rfl⟩
    rw [yields]

/-- An edit with steps back ends as the edit does; the steps are taken after a
contradiction and after nothing else. -/
theorem yields_undoing {edit : Edit α β} {undo : Solver α → Solver α}
    {result : Except (Failure α) β} :
    (edit.undoing undo).Yields before result after ↔
      ∃ middle, edit.Yields before result middle ∧
        after =
          match result with
          | .error .overConstrained =>
              { middle with solver := undo middle.solver }
          | _ => middle := by
  have unfolded : (edit.undoing undo).run before =
      ((edit.run before).1,
        match (edit.run before).1 with
        | .error .overConstrained =>
            { (edit.run before).2 with
              solver := undo (edit.run before).2.solver }
        | _ => (edit.run before).2) := by
    unfold undoing
    rw [run_bind, (yields_outcome.mpr ⟨_, yields_run edit before, rfl⟩ : _ = _)]
    cases (edit.run before).1 with
    | ok value => rfl
    | error failure => cases failure <;> rfl
  rw [Yields, unfolded]
  constructor
  · intro equal
    cases equal
    exact ⟨_, rfl, rfl⟩
  · rintro ⟨middle, yields, rfl⟩
    rw [yields]

end Pieces

/-! ## Keeping a relation -/

def Keeps (relation : Draft α → Draft α → Prop) (edit : Edit α β) : Prop :=
  ∀ before result after, edit.Yields before result after → relation before after

structure Lasting (relation : Draft α → Draft α → Prop) : Prop where
  refl (draft : Draft α) : relation draft draft
  trans (first second third : Draft α) (left : relation first second)
    (right : relation second third) : relation first third

theorem keeps_update {relation : Draft α → Draft α → Prop}
    {change : Solver α → Solver α}
    (related : ∀ draft : Draft α,
      relation draft { draft with solver := change draft.solver }) :
    Keeps relation (update change) := by
  intro before result after yields
  rw [(yields_update.mp yields).2]
  exact related before

theorem keeps_note {relation : Draft α → Draft α → Prop} {note : Note α}
    (related : ∀ draft : Draft α,
      relation draft { draft with notes := note :: draft.notes }) :
    Keeps relation (Edit.note note) := by
  intro before result after yields
  rw [(yields_note.mp yields).2]
  exact related before

namespace Lasting

variable {relation : Draft α → Draft α → Prop} (lasting : Lasting relation)
include lasting

theorem pure (value : β) : Keeps relation (Pure.pure value : Edit α β) := by
  intro before result after yields
  rw [(yields_pure.mp yields).2]
  exact lasting.refl before

theorem current : Keeps relation (Edit.current : Edit α (Solver α)) := by
  intro before result after yields
  rw [(yields_current.mp yields).2]
  exact lasting.refl before

theorem check (condition : Solver α → Except (Failure α) β) :
    Keeps relation (Edit.check condition) := by
  intro before result after yields
  rw [(yields_check.mp yields).2]
  exact lasting.refl before

theorem ofOutcome (outcome : Except (Failure α) β) :
    Keeps relation (Edit.ofOutcome outcome) := by
  intro before result after yields
  rw [(yields_ofOutcome.mp yields).2]
  exact lasting.refl before

theorem bind {edit : Edit α β} {next : β → Edit α γ}
    (first : Keeps relation edit)
    (later : ∀ value, Keeps relation (next value)) :
    Keeps relation (edit >>= next) := by
  intro before result after yields
  rcases yields_bind.mp yields with ⟨failure, failed, _⟩
    | ⟨value, middle, done, rest⟩
  · exact first _ _ _ failed
  · exact lasting.trans _ _ _ (first _ _ _ done) (later value _ _ _ rest)

theorem undoing {edit : Edit α β} {undo : Solver α → Solver α}
    (related : ∀ draft : Draft α,
      relation draft { draft with solver := undo draft.solver })
    (kept : Keeps relation edit) : Keeps relation (edit.undoing undo) := by
  intro before result after yields
  rcases yields_undoing.mp yields with ⟨middle, done, isAfter⟩
  rw [isAfter]
  split
  · exact lasting.trans _ _ _ (kept _ _ _ done) (related middle)
  · exact kept _ _ _ done

end Lasting

end Edit

end LiveLinear
