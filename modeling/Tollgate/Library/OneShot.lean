import Tollgate.Library.Transducer

/-!
# Machines that close

A machine closes when some of its states are final: a closed state stays closed and shows nothing
more. If, besides, a step that shows something closes the machine, then a run shows what a single
step shows. The results are relative to an invariant and to a condition on the steps of the run, and
to an observer that says what counts as shown.
-/

set_option autoImplicit false
set_option relaxedAutoImplicit false

universe u v w x

namespace Transducer

variable {State : Type u} {Input : Type v} {Output : Type w} {α : Type x}

/-- Under `condition`, a closed state stays closed and shows nothing, and a step of an open state
either shows nothing and keeps the invariant, or shows something and closes. -/
structure Closing (machine : Transducer State Input Output) (invariant closed : State → Prop)
    (condition : State → Input → Prop) (observer : State → Input → List α) : Prop where
  stays : ∀ state input, closed state → condition state input →
    closed (machine.step state input).1 ∧ observer state input = []
  closes : ∀ state input, invariant state → condition state input →
    invariant (machine.step state input).1 ∧ observer state input = [] ∨
      closed (machine.step state input).1

variable {machine : Transducer State Input Output} {invariant closed : State → Prop}
  {condition : State → Input → Prop} {observer : State → Input → List α}

/-- Assumes: a closing machine in a closed state. It is closed at the end of a run, and the run
showed nothing. -/
theorem Closing.silent (hclosing : machine.Closing invariant closed condition observer)
    {state : State} (hclosed : closed state) {inputs : List Input}
    (halong : machine.Along condition state inputs) :
    closed (machine.final state inputs) ∧ machine.observe observer state inputs = [] := by
  induction inputs generalizing state with
  | nil => exact ⟨hclosed, rfl⟩
  | cons input rest ih =>
    obtain ⟨hnext, hnothing⟩ := hclosing.stays state input hclosed halong.1
    obtain ⟨hend, hrest⟩ := ih hnext halong.2
    refine ⟨hend, ?_⟩
    rw [observe_cons, hnothing, hrest, List.append_nil]

/-- Assumes: a closing machine in a state with the invariant. A run keeps the invariant and shows
nothing, or it has one step that closes, and shows what that step shows. -/
theorem Closing.run (hclosing : machine.Closing invariant closed condition observer)
    {state : State} (hstate : invariant state) {inputs : List Input}
    (halong : machine.Along condition state inputs) :
    invariant (machine.final state inputs) ∧ machine.observe observer state inputs = [] ∨
      ∃ before input after, inputs = before ++ input :: after ∧
        invariant (machine.final state before) ∧
        machine.observe observer state before = [] ∧
        closed (machine.step (machine.final state before) input).1 ∧
        machine.observe observer state inputs =
          observer (machine.final state before) input := by
  induction inputs generalizing state with
  | nil => exact Or.inl ⟨hstate, rfl⟩
  | cons input rest ih =>
    rcases hclosing.closes state input hstate halong.1 with ⟨hnext, hnothing⟩ | hclosed
    · rcases ih hnext halong.2 with ⟨hend, hrest⟩ | ⟨before, last, after, hcut, hthere⟩
      · refine Or.inl ⟨hend, ?_⟩
        rw [observe_cons, hnothing, hrest, List.append_nil]
      · obtain ⟨hinvariant, hbefore, hclosed, hshown⟩ := hthere
        refine Or.inr ⟨input :: before, last, after, by rw [hcut, List.cons_append], hinvariant,
          ?_, hclosed, ?_⟩
        · rw [observe_cons, hnothing, hbefore, List.append_nil]
        · rw [observe_cons, hnothing, hshown, List.nil_append]
          rfl
    · refine Or.inr ⟨[], input, rest, rfl, hstate, rfl, hclosed, ?_⟩
      rw [observe_cons, (hclosing.silent hclosed halong.2).2, List.append_nil]
      rfl

end Transducer
