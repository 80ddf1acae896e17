import Mathlib.Tactic.ByContra
import LiveLinear.Session.World

namespace LiveLinear

/-! # Calling hooks

Where a solver stands in its rounds of hooks can be read off the history, and so
can whether its hooks have been called one at a time, each at most once in a
round. -/

inductive Calling where
  | nobody
  | between (waiting : List VariableId)
  | inside (target : VariableId) (waiting : List VariableId)

namespace Calling

variable {α : Type}

def waiting : Calling → List VariableId
  | .nobody => []
  | .between waiting => waiting
  | .inside _ waiting => waiting

/-- Where a solver stands after an event. -/
def next (calling : Calling) (id : SolverId) : Event α → Calling
  | .roundBegan solver ids => if solver = id then .between ids else calling
  | .hookCalled solver target _ _ =>
      if solver = id then .inside target (calling.waiting.erase target)
      else calling
  | .hookReturned solver _ =>
      if solver = id then .between calling.waiting else calling
  | .roundEnded solver => if solver = id then .nobody else calling
  | .noted _ _ => calling
  | .commandEnded _ _ => calling

/-- Whether an event may happen next: a round begins outside of rounds, a hook
is called between two calls, and the hook that returns is the one that was
called. -/
def Admits (calling : Calling) (id : SolverId) : Event α → Prop
  | .roundBegan solver ids => solver = id → calling = .nobody ∧ ids.Nodup
  | .hookCalled solver target _ _ =>
      solver = id → ∃ waiting, calling = .between waiting ∧ target ∈ waiting
  | .hookReturned solver target =>
      solver = id → ∃ waiting, calling = .inside target waiting
  | .roundEnded _ => True
  | .noted _ _ => True
  | .commandEnded _ _ => True

def of (id : SolverId) : List (Event α) → Calling
  | [] => .nobody
  | event :: older => (of id older).next id event

end Calling

namespace Event

variable {α : Type} {id : SolverId}

def Admitted (id : SolverId) : List (Event α) → Prop
  | [] => True
  | event :: older => (Calling.of id older).Admits id event ∧ Admitted id older

/-- The variable whose hook is called. -/
def calledBy (id : SolverId) : Event α → Option VariableId
  | .hookCalled solver target _ _ => if solver = id then some target else none
  | .noted _ _ | .roundBegan _ _ | .hookReturned _ _ | .roundEnded _
      | .commandEnded _ _ => none

theorem calling_noted (id solver : SolverId) (notes : List (Note α))
    (older : List (Event α)) :
    Calling.of id (notes.map (.noted solver) ++ older) =
      Calling.of id older := by
  induction notes with
  | nil => rfl
  | cons note rest induction => exact induction

theorem admitted_noted {solver : SolverId} {notes : List (Note α)}
    {older : List (Event α)} :
    Admitted id (notes.map (.noted solver) ++ older) ↔ Admitted id older := by
  induction notes with
  | nil => rfl
  | cons note rest induction => exact (and_iff_right trivial).trans induction

theorem Admitted.append {newer older : List (Event α)}
    (admitted : Admitted id (newer ++ older)) :
    Admitted id older := by
  induction newer with
  | nil => exact admitted
  | cons event rest induction => exact induction admitted.2

/-- A round goes on until it ends. -/
theorem calling_ne_nobody {newer older : List (Event α)}
    (begun : Calling.of id older ≠ .nobody) (open_ : .roundEnded id ∉ newer) :
    Calling.of id (newer ++ older) ≠ .nobody := by
  induction newer with
  | nil => exact begun
  | cons event rest induction =>
      have before := induction fun member =>
        open_ (List.mem_cons_of_mem _ member)
      rw [List.cons_append, Calling.of]
      cases event with
      | noted | commandEnded => exact before
      | roundBegan solver ids | hookCalled solver target tag value
      | hookReturned solver target =>
          simp only [Calling.next]
          split
          · simp
          · exact before
      | roundEnded solver =>
          have other : solver ≠ id := by
            rintro rfl
            exact open_ List.mem_cons_self
          simp only [Calling.next, if_neg other]
          exact before

/-- A call goes on until the hook returns or the round ends. -/
theorem calling_inside {between older : List (Event α)} {target : VariableId}
    (called : ∃ waiting, Calling.of id older = .inside target waiting)
    (admitted : Admitted id (between ++ older))
    (running : .hookReturned id target ∉ between)
    (open_ : .roundEnded id ∉ between) :
    ∃ waiting, Calling.of id (between ++ older) = .inside target waiting := by
  induction between with
  | nil => exact called
  | cons event rest induction =>
      have before := induction admitted.2
        (fun member => running (List.mem_cons_of_mem _ member))
        fun member => open_ (List.mem_cons_of_mem _ member)
      have admits := admitted.1
      rcases before with ⟨waiting, isInside⟩
      rw [List.append_eq] at admits
      rw [List.cons_append, Calling.of]
      rw [isInside] at admits ⊢
      cases event with
      | noted | commandEnded => exact ⟨waiting, rfl⟩
      | roundBegan solver ids =>
          have other : solver ≠ id := fun same => nomatch (admits same).1
          exact ⟨waiting, if_neg other⟩
      | hookCalled solver again tag value =>
          have other : solver ≠ id := by
            intro same
            rcases admits same with ⟨_, impossible, _⟩
            cases impossible
          exact ⟨waiting, if_neg other⟩
      | hookReturned solver returned =>
          have other : solver ≠ id := by
            intro same
            rcases admits same with ⟨_, isSame⟩
            cases isSame
            rw [same] at running
            exact running List.mem_cons_self
          exact ⟨waiting, if_neg other⟩
      | roundEnded solver =>
          have other : solver ≠ id := by
            rintro rfl
            exact open_ List.mem_cons_self
          exact ⟨waiting, if_neg other⟩

theorem Admitted.returned {newer between older : List (Event α)}
    {first second : VariableId} {firstTag secondTag : String}
    {firstValue secondValue : α}
    (admitted :
      Admitted id
        (newer ++ .hookCalled id second secondTag secondValue ::
          (between ++ .hookCalled id first firstTag firstValue :: older))) :
    .hookReturned id first ∈ between ∨ .roundEnded id ∈ between := by
  by_contra neither
  rw [not_or] at neither
  have called := admitted.append
  have begun :
      Calling.of id (.hookCalled id first firstTag firstValue :: older) =
        .inside first ((Calling.of id older).waiting.erase first) := if_pos rfl
  rcases calling_inside ⟨_, begun⟩ called.2 neither.1 neither.2 with
    ⟨_, isInside⟩
  rcases called.1 rfl with ⟨_, isBetween, _⟩
  rw [isInside] at isBetween
  cases isBetween

/-- In one round, the variables whose hooks have been called and those still
waiting are the ones that the round began with. -/
theorem Admitted.called_perm {newer older : List (Event α)}
    {ids : List VariableId}
    (admitted : Admitted id (newer ++ .roundBegan id ids :: older))
    (open_ : .roundEnded id ∉ newer) :
    (newer.filterMap (calledBy id) ++
      (Calling.of id (newer ++ .roundBegan id ids :: older)).waiting).Perm
      ids := by
  induction newer with
  | nil =>
      rw [List.nil_append, Calling.of, Calling.next, if_pos rfl]
      exact List.Perm.refl ids
  | cons event rest induction =>
      have openBefore : .roundEnded id ∉ rest :=
        fun member => open_ (List.mem_cons_of_mem _ member)
      have before := induction admitted.2 openBefore
      have begun : Calling.of id (.roundBegan id ids :: older) ≠ .nobody := by
        rw [Calling.of, Calling.next, if_pos rfl]
        simp
      have inRound := calling_ne_nobody begun openBefore
      have admits := admitted.1
      rw [List.cons_append, Calling.of]
      generalize Calling.of id (rest ++ .roundBegan id ids :: older) =
        calling at *
      cases event with
      | noted | commandEnded => exact before
      | roundBegan solver others =>
          have other : solver ≠ id := fun same => inRound (admits same).1
          rw [Calling.next, if_neg other]
          exact before
      | hookCalled solver target tag value =>
          by_cases same : solver = id
          · rcases admits same with ⟨waiting, rfl, isWaiting⟩
            simp only [List.filterMap_cons, calledBy, Calling.next, if_pos same,
              Calling.waiting] at before ⊢
            have swapped :
                (target :: rest.filterMap (calledBy id) ++ waiting.erase
                  target).Perm (rest.filterMap (calledBy id) ++ waiting) :=
              List.perm_middle.symm.trans
                ((List.perm_cons_erase isWaiting).symm.append_left _)
            exact swapped.trans before
          · simp only [List.filterMap_cons, calledBy, Calling.next, if_neg same]
            exact before
      | hookReturned solver target =>
          simp only [List.filterMap_cons, calledBy, Calling.next]
          split
          · exact before
          · exact before
      | roundEnded solver =>
          have other : solver ≠ id := by
            rintro rfl
            exact open_ List.mem_cons_self
          rw [Calling.next, if_neg other]
          exact before

theorem Admitted.nodup_called {newer older : List (Event α)}
    {ids : List VariableId}
    (admitted : Admitted id (newer ++ .roundBegan id ids :: older))
    (open_ : .roundEnded id ∉ newer) :
    (newer.filterMap (calledBy id)).Nodup := by
  have began := (admitted.append.1 rfl).2
  exact (List.nodup_append.mp
    ((admitted.called_perm open_).nodup_iff.mpr began)).1

end Event

end LiveLinear
