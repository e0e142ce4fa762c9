import Tollgate.Library.Transducer

/-!
# Polled meters

A poller reads a running total, keeps the reading while other things happen, and then hands it on.
`PollStep` is what one step of a machine may do to the reading that is kept. If the total never
decreases, the readings that are handed on never decrease either, however the steps of the poller
fall among the others (`Transducer.fed_sorted`).
-/

set_option autoImplicit false
set_option relaxedAutoImplicit false

universe u v w x

variable {α : Type x}

/-- One step of a poller that finds `total`: the reading it kept, what it hands on, and the reading
it keeps. -/
inductive PollStep (total : α) : Option α → List α → Option α → Prop
  | keep (held : Option α) : PollStep total held [] held
  | take : PollStep total none [] (some total)
  | feed (reading : α) : PollStep total (some reading) [reading] none

namespace Transducer

variable {State : Type u} {Input : Type v} {Output : Type w} [Preorder α]
  (machine : Transducer State Input Output) (total : State → α) (held : State → Option α)
  (fed : State → Input → List α)

/-- A step polls, and the total does not decrease. -/
def Polls (state : State) (input : Input) : Prop :=
  total state ≤ total (machine.step state input).1 ∧
    PollStep (total state) (held state) (fed state input) (held (machine.step state input).1)

/-- The least that can still be handed on. -/
def floor (state : State) : α :=
  (held state).getD (total state)

variable {machine total held fed}

/-- Assumes: a step that polls, and no reading above the total. What is handed on is the floor, and
the floor does not fall. -/
theorem Polls.step {state : State} {input : Input}
    (hpolls : machine.Polls total held fed state input)
    (hheld : ∀ reading ∈ held state, reading ≤ total state) :
    (fed state input = [] ∨ fed state input = [floor total held state]) ∧
      floor total held state ≤ floor total held (machine.step state input).1 ∧
      (∀ reading ∈ held (machine.step state input).1,
        reading ≤ total (machine.step state input).1) := by
  obtain ⟨hgrows, hstep⟩ := hpolls
  unfold floor
  generalize held (machine.step state input).1 = after, held state = before,
    fed state input = handed at hstep hheld ⊢
  cases hstep with
  | keep =>
    refine ⟨Or.inl rfl, ?_, fun reading hreading ↦ (hheld reading hreading).trans hgrows⟩
    cases after with
    | none => exact hgrows
    | some reading => exact le_rfl
  | take =>
    refine ⟨Or.inl rfl, le_rfl, fun reading hreading ↦ ?_⟩
    obtain rfl := Option.mem_some.mp hreading
    exact hgrows
  | feed reading => exact ⟨Or.inr rfl, (hheld reading rfl).trans hgrows, by simp⟩

/-- Assumes: a run whose every step polls, and no reading above the total. The readings handed on
never decrease, from the floor on. -/
theorem fed_sorted {state : State} {inputs : List Input}
    (hpolls : machine.Along (machine.Polls total held fed) state inputs)
    (hheld : ∀ reading ∈ held state, reading ≤ total state) :
    (floor total held state :: machine.observe fed state inputs).Pairwise (· ≤ ·) := by
  induction inputs generalizing state with
  | nil => simp
  | cons input rest ih =>
    obtain ⟨hstep, hrest⟩ := hpolls
    obtain ⟨hfed, hfloor, hnext⟩ := hstep.step hheld
    obtain ⟨hleast, hsorted⟩ := List.pairwise_cons.mp (ih hrest hnext)
    have hlater : (floor total held state ::
        machine.observe fed (machine.step state input).1 rest).Pairwise (· ≤ ·) :=
      List.pairwise_cons.mpr ⟨fun reading hreading ↦ hfloor.trans (hleast reading hreading),
        hsorted⟩
    rw [observe_cons]
    rcases hfed with hfed | hfed
    · rw [hfed, List.nil_append]
      exact hlater
    · rw [hfed, List.singleton_append]
      refine List.pairwise_cons.mpr ⟨fun reading hreading ↦ ?_, hlater⟩
      rcases List.mem_cons.mp hreading with rfl | hreading
      · exact le_rfl
      · exact (List.pairwise_cons.mp hlater).1 reading hreading

end Transducer
