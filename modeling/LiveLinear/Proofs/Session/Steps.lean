import LiveLinear.Proofs.Session.Ledger
import LiveLinear.Proofs.Session.Soundness

namespace LiveLinear

/-! # The steps of a session -/

open Activity (Calls RunsWith)

namespace Session

variable {α : Type} [Scalar α] {known : Calls α} {engine : Engine α}
  {world : World α} {command : Command α} {done : Step α}

theorem yields_of_step (stepped : step engine world command = some done) :
    (Action.execute engine none command).Yields world done.outcome
      done.world := by
  rcases Option.map_eq_some_iff.mp stepped with
    ⟨⟨outcome, after⟩, yields, equal⟩
  subst equal
  exact yields

theorem step_of_yields {outcome : Except (Failure α) (Reply α)}
    {after : World α}
    (yields : (Action.execute engine none command).Yields world outcome after) :
    ∃ events, step engine world command = some ⟨outcome, events, after⟩ :=
  ⟨_, Option.map_eq_some_iff.mpr ⟨(outcome, after), yields, rfl⟩⟩

theorem step_runs (sound : engine.SoundWith known)
    (stepped : step engine world command = some done) :
    RunsWith known (.command none command) world (ending done.outcome)
      done.world ∧
      done.world.history = done.events.reverse ++ world.history := by
  rcases Option.map_eq_some_iff.mp stepped with
    ⟨⟨outcome, after⟩, yields, equal⟩
  subst equal
  have runs := Action.execute_runs sound none command _ _ _ yields
  refine ⟨runs, ?_⟩
  rcases runs.accounts with ⟨events, history, _⟩
  simp [history]

/-- What holds of the worlds between the steps of a session, as long as each
step has a property that carries it on. -/
theorem play_each {invariant : World α → Prop} {property : Step α → Prop}
    (commands : List (Command α))
    (carried : ∀ before command done, command ∈ commands → invariant before →
      step engine before command = some done → property done →
      invariant done.world) :
    ∀ world, invariant world →
      (∀ done ∈ play engine world commands, property done) →
      ∀ done ∈ play engine world commands, ∃ before, ∃ command ∈ commands,
        invariant before ∧ step engine before command = some done := by
  induction commands with
  | nil =>
      intro world _ _ done member
      cases member
  | cons command rest induction =>
      intro world holds all done member
      simp only [play] at all member
      cases stepped : step engine world command with
      | none =>
          rw [stepped] at member
          cases member
      | some first =>
          rw [stepped] at all member
          rcases List.mem_cons.mp member with rfl | later
          · exact ⟨world, command, List.mem_cons_self, holds, stepped⟩
          · have next :=
              carried world command first List.mem_cons_self holds stepped
                (all first List.mem_cons_self)
            have carriedLater := fun before command done isLater =>
              carried before command done (List.mem_cons_of_mem _ isLater)
            rcases induction carriedLater first.world next
              (fun done isLater => all done (List.mem_cons_of_mem _ isLater))
              done later with
              ⟨before, earlier, isMember, held, isStep⟩
            exact ⟨before, earlier, List.mem_cons_of_mem _ isMember, held,
              isStep⟩

theorem play_keeps {invariant : World α → Prop} (commands : List (Command α))
    (carried : ∀ before command done, command ∈ commands → invariant before →
      step engine before command = some done → invariant done.world)
    (world : World α) (holds : invariant world) :
    ∀ done ∈ play engine world commands, invariant done.world := by
  intro done member
  have carriedOn : ∀ before command done, command ∈ commands →
      invariant before → step engine before command = some done → True →
      invariant done.world :=
    fun before command done isCommand held stepped _ =>
      carried before command done isCommand held stepped
  rcases play_each commands carriedOn world holds (fun _ _ => trivial) done
    member with
    ⟨before, command, isCommand, held, stepped⟩
  exact carried before command done isCommand held stepped

end Session

end LiveLinear
