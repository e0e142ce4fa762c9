import Mathlib

/-!
# Deterministic transducers

A transducer turns one input into a new state and a list of outputs. `final` is the state a list of
inputs leads to, `observe` collects whatever an observer reads off each step (the state in front of
it and the input), and `outputs` is the observation of the transducer's own outputs. `Along` says
that a condition holds at every step of a run, `Throughout` that a property holds in every state it
passes.

Two rules carry proofs about runs. `final_invariant` lifts an invariant of one step to every state
reached. `Simulation` relates two transducers, the second driven by a translation of the inputs of
the first and seeing only the outputs that a predicate keeps: a step lemma then gives the final
states (`Simulation.final`), the outputs (`Simulation.outputs`), any pair of observers that agree on
related states (`Simulation.observe`) and any pair of conditions that do (`Simulation.along`).

A `Shadow` is a second machine that takes its inputs from what is seen of each step of the first,
its state included. It keeps a record beside a run, and whatever an observer reads off the first
machine by the relation between the two can be read off the record (`Shadow.observe`), and so can a
condition on its steps (`Shadow.along`).
-/

set_option autoImplicit false
set_option relaxedAutoImplicit false

universe u v w x

/-- A deterministic machine with outputs. -/
structure Transducer (State : Type u) (Input : Type v) (Output : Type w) where
  step : State → Input → State × List Output

namespace Transducer

variable {State : Type u} {Input : Type v} {Output : Type w} {α : Type x}

/-- The state after a list of inputs. -/
def final (machine : Transducer State Input Output) (state : State) : List Input → State
  | [] => state
  | input :: rest => machine.final (machine.step state input).1 rest

/-- What an observer of single steps collects along a run. -/
def observe (machine : Transducer State Input Output) (observer : State → Input → List α)
    (state : State) : List Input → List α
  | [] => []
  | input :: rest =>
    observer state input ++ machine.observe observer (machine.step state input).1 rest

/-- Everything the machine emits along a run. -/
def outputs (machine : Transducer State Input Output) (state : State) (inputs : List Input) :
    List Output :=
  machine.observe (fun state input ↦ (machine.step state input).2) state inputs

/-- A condition on the state in front of a step and its input, at every step of a run. -/
def Along (machine : Transducer State Input Output) (condition : State → Input → Prop)
    (state : State) : List Input → Prop
  | [] => True
  | input :: rest =>
    condition state input ∧ machine.Along condition (machine.step state input).1 rest

/-- A property of every state a run passes through, its first and its last included. -/
def Throughout (machine : Transducer State Input Output) (property : State → Prop)
    (state : State) (inputs : List Input) : Prop :=
  ∀ before, before <+: inputs → property (machine.final state before)

variable (machine : Transducer State Input Output)

instance decidableAlong (condition : State → Input → Prop)
    [∀ state input, Decidable (condition state input)] (state : State) :
    (inputs : List Input) → Decidable (machine.Along condition state inputs)
  | [] => inferInstanceAs (Decidable True)
  | input :: rest =>
    have := decidableAlong condition (machine.step state input).1 rest
    inferInstanceAs (Decidable (condition state input ∧ _))

instance (property : State → Prop) [DecidablePred property] (state : State)
    (inputs : List Input) : Decidable (machine.Throughout property state inputs) :=
  decidable_of_iff (∀ before ∈ inputs.inits, property (machine.final state before))
    (forall_congr' fun before ↦ by rw [List.mem_inits])

@[simp] theorem final_nil (state : State) : machine.final state [] = state := rfl

@[simp] theorem final_cons (state : State) (input : Input) (rest : List Input) :
    machine.final state (input :: rest) = machine.final (machine.step state input).1 rest := rfl

@[simp] theorem final_append (state : State) (first second : List Input) :
    machine.final state (first ++ second) = machine.final (machine.final state first) second := by
  induction first generalizing state with
  | nil => rfl
  | cons input rest ih => exact ih _

@[simp] theorem observe_nil (observer : State → Input → List α) (state : State) :
    machine.observe observer state [] = [] := rfl

@[simp] theorem observe_cons (observer : State → Input → List α) (state : State) (input : Input)
    (rest : List Input) :
    machine.observe observer state (input :: rest) =
      observer state input ++ machine.observe observer (machine.step state input).1 rest := rfl

@[simp] theorem observe_append (observer : State → Input → List α) (state : State)
    (first second : List Input) :
    machine.observe observer state (first ++ second) =
      machine.observe observer state first ++
        machine.observe observer (machine.final state first) second := by
  induction first generalizing state with
  | nil => rfl
  | cons input rest ih =>
    rw [List.cons_append, observe_cons, observe_cons, ih, final_cons, List.append_assoc]

@[simp] theorem outputs_nil (state : State) : machine.outputs state [] = [] := rfl

@[simp] theorem outputs_cons (state : State) (input : Input) (rest : List Input) :
    machine.outputs state (input :: rest) =
      (machine.step state input).2 ++ machine.outputs (machine.step state input).1 rest := rfl

@[simp] theorem outputs_append (state : State) (first second : List Input) :
    machine.outputs state (first ++ second) =
      machine.outputs state first ++ machine.outputs (machine.final state first) second :=
  machine.observe_append _ state first second

@[simp] theorem along_nil (condition : State → Input → Prop) (state : State) :
    machine.Along condition state [] := trivial

@[simp] theorem along_cons (condition : State → Input → Prop) (state : State) (input : Input)
    (rest : List Input) :
    machine.Along condition state (input :: rest) ↔
      condition state input ∧ machine.Along condition (machine.step state input).1 rest := Iff.rfl

@[simp] theorem along_append (condition : State → Input → Prop) (state : State)
    (first second : List Input) :
    machine.Along condition state (first ++ second) ↔
      machine.Along condition state first ∧
        machine.Along condition (machine.final state first) second := by
  induction first generalizing state with
  | nil => simp
  | cons input rest ih =>
    rw [List.cons_append, along_cons, along_cons, ih, final_cons, and_assoc]

/-- A condition holds along a run exactly when it holds wherever the run is cut in front of an
input. -/
theorem along_iff_forall_cut (condition : State → Input → Prop) (state : State)
    (inputs : List Input) :
    machine.Along condition state inputs ↔
      ∀ before input after, inputs = before ++ input :: after →
        condition (machine.final state before) input := by
  constructor
  · intro halong before input after hcut
    rw [hcut, along_append] at halong
    exact halong.2.1
  · intro hall
    induction inputs generalizing state with
    | nil => trivial
    | cons input rest ih =>
      refine ⟨hall [] input rest rfl, ih _ fun before next after hcut ↦ ?_⟩
      exact hall (input :: before) next after (by rw [hcut, List.cons_append])

@[simp] theorem throughout_nil (property : State → Prop) (state : State) :
    machine.Throughout property state [] ↔ property state := by
  constructor
  · exact fun hall ↦ hall [] List.nil_prefix
  · intro hstate before hbefore
    rw [List.prefix_nil.mp hbefore]
    exact hstate

@[simp] theorem throughout_cons (property : State → Prop) (state : State) (input : Input)
    (rest : List Input) :
    machine.Throughout property state (input :: rest) ↔
      property state ∧ machine.Throughout property (machine.step state input).1 rest := by
  constructor
  · intro hall
    refine ⟨hall [] List.nil_prefix, fun before hbefore ↦ ?_⟩
    exact hall (input :: before) (List.cons_prefix_cons.mpr ⟨rfl, hbefore⟩)
  · rintro ⟨hstate, hrest⟩ before hbefore
    cases before with
    | nil => exact hstate
    | cons first others =>
      obtain ⟨rfl, hothers⟩ := List.cons_prefix_cons.mp hbefore
      exact hrest others hothers

/-- A run in two parts: the property throughout the first, and throughout the second from where
the first ended. -/
theorem throughout_append (property : State → Prop) (state : State) (first second : List Input) :
    machine.Throughout property state (first ++ second) ↔
      machine.Throughout property state first ∧
        machine.Throughout property (machine.final state first) second := by
  induction first generalizing state with
  | nil =>
    simp only [List.nil_append, throughout_nil, final_nil]
    exact ⟨fun hall ↦ ⟨hall [] List.nil_prefix, hall⟩, fun hboth ↦ hboth.2⟩
  | cons input rest ih =>
    rw [List.cons_append, throughout_cons, throughout_cons, ih, final_cons, and_assoc]

/-- Assumes: from a state with a property, a step keeps it exactly when the condition holds. From
such a state the property holds throughout a run exactly when the condition holds along it. -/
theorem throughout_iff_along {property : State → Prop} {condition : State → Input → Prop}
    (hstep : ∀ state input, property state →
      (property (machine.step state input).1 ↔ condition state input))
    {state : State} (hstate : property state) (inputs : List Input) :
    machine.Throughout property state inputs ↔ machine.Along condition state inputs := by
  induction inputs generalizing state with
  | nil => exact iff_of_true ((machine.throughout_nil _ _).mpr hstate) trivial
  | cons input rest ih =>
    rw [throughout_cons, along_cons, ← hstep state input hstate, and_iff_right hstate]
    constructor
    · intro hrest
      have hnext := hrest [] List.nil_prefix
      exact ⟨hnext, (ih hnext).mp hrest⟩
    · exact fun hboth ↦ (ih hboth.1).mpr hboth.2

/-- A weaker condition holds along the same run. -/
theorem Along.mono {machine : Transducer State Input Output}
    {first second : State → Input → Prop} {state : State} {inputs : List Input}
    (halong : machine.Along first state inputs)
    (himp : ∀ state input, first state input → second state input) :
    machine.Along second state inputs := by
  rw [along_iff_forall_cut] at halong ⊢
  exact fun before input after hcut ↦ himp _ _ (halong before input after hcut)

/-- Assumes: every step keeps the invariant. A run from a state that has it ends in one. -/
theorem final_invariant (invariant : State → Prop)
    (hstep : ∀ state input, invariant state → invariant (machine.step state input).1)
    {state : State} (hstate : invariant state) (inputs : List Input) :
    invariant (machine.final state inputs) := by
  induction inputs generalizing state with
  | nil => exact hstate
  | cons input rest ih => exact ih (hstep state input hstate)

/-- Assumes: a step that meets the condition keeps the invariant. A run whose steps all meet the
condition has the invariant at every step. -/
theorem Along.with_invariant {machine : Transducer State Input Output}
    {condition : State → Input → Prop} (invariant : State → Prop)
    (hstep : ∀ state input, invariant state → condition state input →
      invariant (machine.step state input).1)
    {state : State} (hstate : invariant state) {inputs : List Input}
    (halong : machine.Along condition state inputs) :
    machine.Along (fun state input ↦ invariant state ∧ condition state input) state inputs := by
  induction inputs generalizing state with
  | nil => trivial
  | cons input rest ih =>
    exact ⟨⟨hstate, halong.1⟩, ih (hstep state input hstate halong.1) halong.2⟩

/-- Assumes: a step that meets the condition keeps the invariant. A run whose steps all meet the
condition ends in a state with the invariant. -/
theorem Along.final_invariant {machine : Transducer State Input Output}
    {condition : State → Input → Prop} (invariant : State → Prop)
    (hstep : ∀ state input, invariant state → condition state input →
      invariant (machine.step state input).1)
    {state : State} (hstate : invariant state) {inputs : List Input}
    (halong : machine.Along condition state inputs) : invariant (machine.final state inputs) := by
  induction inputs generalizing state with
  | nil => exact hstate
  | cons input rest ih => exact ih (hstep state input hstate halong.1) halong.2

/-- Assumes: two observers that agree at every step of a run. They collect the same. -/
theorem observe_congr_along {first second : State → Input → List α} {state : State}
    {inputs : List Input}
    (halong : machine.Along (fun state input ↦ first state input = second state input) state
      inputs) :
    machine.observe first state inputs = machine.observe second state inputs := by
  induction inputs generalizing state with
  | nil => rfl
  | cons input rest ih => rw [observe_cons, observe_cons, halong.1, ih halong.2]

/-- Assumes: everything an observer reads off a single step has a property. So has everything it
collects. -/
theorem forall_mem_observe {observer : State → Input → List α} {property : α → Prop}
    (hstep : ∀ state input, ∀ value ∈ observer state input, property value) (state : State)
    (inputs : List Input) : ∀ value ∈ machine.observe observer state inputs, property value := by
  induction inputs generalizing state with
  | nil => exact fun value hvalue ↦ absurd hvalue List.not_mem_nil
  | cons input rest ih =>
    intro value hvalue
    rcases List.mem_append.mp hvalue with hvalue | hvalue
    · exact hstep state input value hvalue
    · exact ih _ value hvalue

/-- A function of what is observed. -/
theorem map_observe {β : Type*} (f : α → β) (observer : State → Input → List α) (state : State)
    (inputs : List Input) :
    (machine.observe observer state inputs).map f =
      machine.observe (fun state input ↦ (observer state input).map f) state inputs := by
  induction inputs generalizing state with
  | nil => rfl
  | cons input rest ih => rw [observe_cons, observe_cons, List.map_append, ih]

/-! ### Simulation -/

section Simulation

variable {Abstract : Type x} {Seen : Type*}

/-- A step simulation: the abstract machine is driven by what it sees of each input, related states
stay related, and it emits exactly the outputs of the concrete machine that `keep` lets through. -/
structure Simulation (concrete : Transducer State Input Output)
    (abstract : Transducer Abstract Seen Output) (see : Input → Seen)
    (rel : State → Abstract → Prop) (keep : Output → Bool) : Prop where
  step_rel : ∀ state view input, rel state view →
    rel (concrete.step state input).1 (abstract.step view (see input)).1
  step_outputs : ∀ state view input, rel state view →
    (concrete.step state input).2.filter keep = (abstract.step view (see input)).2

variable {concrete : Transducer State Input Output} {abstract : Transducer Abstract Seen Output}
  {see : Input → Seen} {rel : State → Abstract → Prop} {keep : Output → Bool}

theorem Simulation.final (sim : Simulation concrete abstract see rel keep) {state : State}
    {view : Abstract} (hrel : rel state view) (inputs : List Input) :
    rel (concrete.final state inputs) (abstract.final view (inputs.map see)) := by
  induction inputs generalizing state view with
  | nil => exact hrel
  | cons input rest ih => exact ih (sim.step_rel state view input hrel)

theorem Simulation.observe {β : Type*} (sim : Simulation concrete abstract see rel keep)
    (observer : State → Input → List β) (viewer : Abstract → Seen → List β)
    (hagree : ∀ state view input, rel state view →
      observer state input = viewer view (see input))
    {state : State} {view : Abstract} (hrel : rel state view) (inputs : List Input) :
    concrete.observe observer state inputs = abstract.observe viewer view (inputs.map see) := by
  induction inputs generalizing state view with
  | nil => rfl
  | cons input rest ih =>
    rw [List.map_cons, observe_cons, observe_cons, hagree state view input hrel,
      ih (sim.step_rel state view input hrel)]

theorem Simulation.outputs (sim : Simulation concrete abstract see rel keep) {state : State}
    {view : Abstract} (hrel : rel state view) (inputs : List Input) :
    (concrete.outputs state inputs).filter keep =
      abstract.outputs view (inputs.map see) := by
  induction inputs generalizing state view with
  | nil => rfl
  | cons input rest ih =>
    rw [List.map_cons, outputs_cons, outputs_cons, List.filter_append,
      sim.step_outputs state view input hrel, ih (sim.step_rel state view input hrel)]

theorem Simulation.along (sim : Simulation concrete abstract see rel keep)
    (condition : State → Input → Prop) (viewed : Abstract → Seen → Prop)
    (hagree : ∀ state view input, rel state view →
      (condition state input ↔ viewed view (see input)))
    {state : State} {view : Abstract} (hrel : rel state view) (inputs : List Input) :
    concrete.Along condition state inputs ↔ abstract.Along viewed view (inputs.map see) := by
  induction inputs generalizing state view with
  | nil => exact Iff.rfl
  | cons input rest ih =>
    rw [List.map_cons, along_cons, along_cons, hagree state view input hrel,
      ih (sim.step_rel state view input hrel)]

theorem Simulation.throughout (sim : Simulation concrete abstract see rel keep)
    (property : State → Prop) (viewed : Abstract → Prop)
    (hagree : ∀ state view, rel state view → (property state ↔ viewed view))
    {state : State} {view : Abstract} (hrel : rel state view) (inputs : List Input) :
    concrete.Throughout property state inputs ↔
      abstract.Throughout viewed view (inputs.map see) := by
  induction inputs generalizing state view with
  | nil =>
    rw [List.map_nil, throughout_nil, throughout_nil]
    exact hagree state view hrel
  | cons input rest ih =>
    rw [List.map_cons, throughout_cons, throughout_cons, hagree state view hrel,
      ih (sim.step_rel state view input hrel)]

end Simulation

/-! ### A shadow -/

section Shadow

variable {Record : Type x} {Seen : Type*}

/-- A relation between a machine and a record of its run, kept by every step that meets the
condition: the record is updated by what is seen of the state and the input. -/
def Shadow (machine : Transducer State Input Output) (record : Transducer Record Seen Empty)
    (see : State → Input → List Seen) (condition : State → Input → Prop)
    (rel : State → Record → Prop) : Prop :=
  ∀ state kept input, rel state kept → condition state input →
    rel (machine.step state input).1 (record.final kept (see state input))

variable {machine : Transducer State Input Output} {record : Transducer Record Seen Empty}
  {see : State → Input → List Seen} {condition : State → Input → Prop}
  {rel : State → Record → Prop}

/-- Assumes: observers that agree wherever the relation and the condition hold. Along a run that
meets the condition they collect the same. -/
theorem Shadow.observe {β : Type*} (hshadow : Shadow machine record see condition rel)
    {observer : State → Input → List β} {reader : Record → Seen → List β}
    (hagree : ∀ state kept input, rel state kept → condition state input →
      observer state input = record.observe reader kept (see state input))
    {state : State} {kept : Record} (hrel : rel state kept) {inputs : List Input}
    (halong : machine.Along condition state inputs) :
    machine.observe observer state inputs =
      record.observe reader kept (machine.observe see state inputs) := by
  induction inputs generalizing state kept with
  | nil => rfl
  | cons input rest ih =>
    rw [observe_cons, observe_cons, observe_append, hagree state kept input hrel halong.1,
      ih (hshadow state kept input hrel halong.1) halong.2]

/-- Assumes: conditions that agree wherever the relation holds. The one holds along a run exactly
when the other does along the record of it. -/
theorem Shadow.along (hshadow : Shadow machine record see condition rel)
    {holds : State → Input → Prop} {kept : Record → Seen → Prop}
    (hagree : ∀ state view input, rel state view → condition state input →
      (holds state input ↔ record.Along kept view (see state input)))
    {state : State} {view : Record} (hrel : rel state view) {inputs : List Input}
    (halong : machine.Along condition state inputs) :
    machine.Along holds state inputs ↔
      record.Along kept view (machine.observe see state inputs) := by
  induction inputs generalizing state view with
  | nil => exact Iff.rfl
  | cons input rest ih =>
    rw [along_cons, observe_cons, along_append, hagree state view input hrel halong.1,
      ih (hshadow state view input hrel halong.1) halong.2]

end Shadow

end Transducer
