import Tollgate.Library.Transducer

/-!
# Latches

Something is held by a state, a step may open it, and until a step shuts it, it stays held. What is
held after a run is what a step of the run opened and no later step shut (`Latch.final_iff`): the
history of a run decides, and the states in between need not be known.
-/

set_option autoImplicit false
set_option relaxedAutoImplicit false

universe u v w

namespace Transducer

variable {State : Type u} {Input : Type v} {Output : Type w}

/-- What is held after a step was opened by it, or was held before and is not shut; this is said of
the inputs that are allowed. -/
def Latch (machine : Transducer State Input Output) (allowed : Input → Prop) (held : State → Prop)
    (opens shuts : State → Input → Prop) : Prop :=
  ∀ state input, allowed input →
    (held (machine.step state input).1 ↔ opens state input ∨ held state ∧ ¬ shuts state input)

/-- Some step of a run opens, and no later one shuts. -/
def OpenedSince (machine : Transducer State Input Output) (opens shuts : State → Input → Prop)
    (state : State) (inputs : List Input) : Prop :=
  ∃ before input after, inputs = before ++ input :: after ∧
    opens (machine.final state before) input ∧
    machine.Along (fun state input ↦ ¬ shuts state input)
      (machine.step (machine.final state before) input).1 after

variable {machine : Transducer State Input Output} {allowed : Input → Prop} {held : State → Prop}
  {opens shuts : State → Input → Prop}

theorem openedSince_cons (state : State) (input : Input) (rest : List Input) :
    machine.OpenedSince opens shuts state (input :: rest) ↔
      (opens state input ∧ machine.Along (fun state input ↦ ¬ shuts state input)
        (machine.step state input).1 rest) ∨
      machine.OpenedSince opens shuts (machine.step state input).1 rest := by
  constructor
  · rintro ⟨before, opening, after, hcut, hopens, hkept⟩
    cases before with
    | nil =>
      obtain ⟨rfl, rfl⟩ := List.cons.inj hcut
      exact Or.inl ⟨hopens, hkept⟩
    | cons first before =>
      obtain ⟨rfl, rfl⟩ := List.cons.inj hcut
      exact Or.inr ⟨before, opening, after, rfl, hopens, hkept⟩
  · rintro (⟨hopens, hkept⟩ | ⟨before, opening, after, rfl, hopens, hkept⟩)
    · exact ⟨[], input, rest, rfl, hopens, hkept⟩
    · exact ⟨input :: before, opening, after, rfl, hopens, hkept⟩

/-- Assumes: a latch, and inputs that are allowed. What is held after a run was held before and
never shut, or was opened and not shut since. -/
theorem Latch.final_iff (hlatch : machine.Latch allowed held opens shuts) (state : State)
    {inputs : List Input} (hallowed : ∀ input ∈ inputs, allowed input) :
    held (machine.final state inputs) ↔
      (held state ∧ machine.Along (fun state input ↦ ¬ shuts state input) state inputs) ∨
        machine.OpenedSince opens shuts state inputs := by
  induction inputs generalizing state with
  | nil => simp [OpenedSince, Along]
  | cons input rest ih =>
    obtain ⟨hinput, hrest⟩ := List.forall_mem_cons.mp hallowed
    rw [final_cons, ih _ hrest, hlatch state input hinput, openedSince_cons]
    simp only [Along]
    tauto

end Transducer
