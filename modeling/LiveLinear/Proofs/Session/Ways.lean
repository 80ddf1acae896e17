import Mathlib.Data.List.Chain
import LiveLinear.Proofs.Session.Activity

namespace LiveLinear

/-! # Ways

The worlds that an activity passes through, one step at a time. Each hook that
it calls finds one of them, and leaves one of them. -/

variable {α : Type}

namespace World

variable {relation : World α → World α → Prop} {before middle after : World α}
  {passed more : List (World α)}

def Way (relation : World α → World α → Prop) :
    World α → List (World α) → World α → Prop
  | before, [], after => after = before
  | before, next :: rest, after =>
      relation before next ∧ Way relation next rest after

namespace Way

theorem append (way : Way relation before passed middle)
    (later : Way relation middle more after) :
    Way relation before (passed ++ more) after := by
  induction passed generalizing before with
  | nil =>
      cases way
      exact later
  | cons next rest induction => exact ⟨way.1, induction way.2⟩

theorem mem_cons (way : Way relation before passed after) :
    after ∈ before :: passed := by
  induction passed generalizing before with
  | nil =>
      cases way
      exact List.mem_cons_self
  | cons next rest induction =>
      exact List.mem_cons_of_mem _ (induction way.2)

theorem isChain (way : Way relation before passed after) :
    (before :: passed).IsChain relation := by
  induction passed generalizing before with
  | nil => exact .singleton before
  | cons next rest induction =>
      exact List.isChain_cons_cons.mpr ⟨way.1, induction way.2⟩

theorem steps (way : Way relation before passed after) :
    Relation.ReflTransGen relation before after := by
  induction passed generalizing before with
  | nil =>
      cases way
      exact .refl
  | cons next rest induction => exact (induction way.2).head way.1

end Way

theorem exists_way (steps : Relation.ReflTransGen relation before after) :
    ∃ passed, Way relation before passed after := by
  induction steps with
  | refl => exact ⟨[], rfl⟩
  | tail _ step induction =>
      rcases induction with ⟨passed, way⟩
      exact ⟨passed ++ [_], way.append ⟨step, rfl⟩⟩

end World

namespace Activity

open Relation (ReflTransGen)

/-- What is known of calls that find and leave worlds of a list. -/
def Calls.On (known : Calls α) (worlds : List (World α)) : Calls α :=
  fun body value before result after =>
    known body value before result after ∧ before ∈ worlds ∧ after ∈ worlds

/-- What holds if all that is known of calls is what is known of those along
some way, which find worlds of that way and leave worlds of it. -/
def Calls.Along (known : Calls α) (relation : World α → World α → Prop)
    (before after : World α) (claim : Calls α → Prop) : Prop :=
  ∃ passed, World.Way relation before passed after ∧
    ∀ more : Calls α, (∀ body value start ending last,
      known.On passed body value start ending last →
        more body value start ending last) → claim more

namespace Calls.Along

variable {relation : World α → World α → Prop} {known : Calls α}
  {before start middle next final after : World α}
  {first second claim : Calls α → Prop}

theorem steps (along : known.Along relation before after claim) :
    ReflTransGen relation before after := by
  rcases along with ⟨_, way, _⟩
  exact way.steps

theorem leaf (steps : ReflTransGen relation before after)
    (rule : ∀ more, claim more) : known.Along relation before after claim := by
  rcases World.exists_way steps with ⟨passed, way⟩
  exact ⟨passed, way, fun more _ => rule more⟩

/-- With steps before and after. -/
theorem part (along : known.Along relation start final first)
    (begins : ReflTransGen relation before start)
    (ends : ReflTransGen relation final after)
    (rule : ∀ more, first more → claim more) :
    known.Along relation before after claim := by
  rcases along with ⟨passed, way, holds⟩
  rcases World.exists_way begins with ⟨opening, opens⟩
  rcases World.exists_way ends with ⟨closing, closes⟩
  refine ⟨opening ++ (passed ++ closing), opens.append (way.append closes), ?_⟩
  intro more knows
  refine rule more (holds more ?_)
  rintro body value start ending last ⟨call, isStart, isLast⟩
  have among : ∀ world ∈ passed, world ∈ opening ++ (passed ++ closing) :=
    fun world member =>
      List.mem_append_right _ (List.mem_append_left _ member)
  exact knows _ _ _ _ _ ⟨call, among _ isStart, among _ isLast⟩

/-- One after the other. -/
theorem trans (along : known.Along relation before middle first)
    (later : known.Along relation middle after second) :
    known.Along relation before after
      fun more => first more ∧ second more := by
  rcases along with ⟨passed, way, holds⟩
  rcases later with ⟨others, laterWay, laterHolds⟩
  refine ⟨passed ++ others, way.append laterWay, fun more knows => ⟨?_, ?_⟩⟩
  · refine holds more ?_
    rintro body value start ending last ⟨call, isStart, isLast⟩
    exact knows _ _ _ _ _ ⟨call, List.mem_append_left _ isStart,
      List.mem_append_left _ isLast⟩
  · refine laterHolds more ?_
    rintro body value start ending last ⟨call, isStart, isLast⟩
    exact knows _ _ _ _ _ ⟨call, List.mem_append_right _ isStart,
      List.mem_append_right _ isLast⟩

theorem parts (along : known.Along relation start middle first)
    (later : known.Along relation next after second)
    (begins : ReflTransGen relation before start)
    (between : ReflTransGen relation middle next)
    (rule : ∀ more, first more → second more → claim more) :
    known.Along relation before after claim := by
  have opened := along.part begins between fun _ holds => holds
  exact (opened.trans later).part .refl .refl
    fun more holds => rule more holds.1 holds.2

theorem call {body : Script α} {value : α} {ending : Ending α}
    (along : known.Along relation start final first)
    (begins : relation before start)
    (holds : known body value start ending final) :
    known.Along relation before final
      fun more => first more ∧ more body value start ending final := by
  rcases along with ⟨passed, way, claims⟩
  refine ⟨start :: passed, ⟨begins, way⟩, fun more knows => ⟨?_, ?_⟩⟩
  · refine claims more ?_
    rintro body value start ending last ⟨call, isStart, isLast⟩
    exact knows _ _ _ _ _ ⟨call, List.mem_cons_of_mem _ isStart,
      List.mem_cons_of_mem _ isLast⟩
  · exact knows _ _ _ _ _ ⟨holds, List.mem_cons_self, way.mem_cons⟩

end Calls.Along

def Along [Scalar α] (relation : World α → World α → Prop) (known : Calls α)
    (activity : Activity α) (before : World α) (result : Ending α)
    (after : World α) : Prop :=
  known.Along relation before after fun more =>
    activity.RunsWith more before result after

end Activity

end LiveLinear
