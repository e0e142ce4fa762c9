import Tollgate.Library.Transducer

/-!
# Two runs of one machine

A machine is run twice on inputs that the two runs share, except that the second run may take some
more. `Paired` marks an input as shared or as the second run's own, and `AlongPair` says that a
condition on the two states in front of it holds at every shared input. A `Coupling` is a relation
that a shared input keeps, with the same outputs on both sides, as long as the condition holds, and
that an input of the second run alone keeps without any output. Related runs then emit the same, as
a whole and at each shared input.
-/

set_option autoImplicit false
set_option relaxedAutoImplicit false

universe u v w

/-- An input of two runs: taken by both, or by the second one alone. -/
inductive Paired (Input : Type v)
  | both (input : Input)
  | second (input : Input)
  deriving DecidableEq

namespace Paired

variable {Input : Type v}

/-- The input as the first run sees it. -/
def original : Paired Input → Option Input
  | both input => some input
  | second _ => none

/-- The input as the second run sees it. -/
def merged : Paired Input → Input
  | both input => input
  | second input => input

end Paired

namespace Transducer

variable {State : Type u} {Input : Type v} {Output : Type w}

/-- A condition on the two states in front of every shared input. -/
def AlongPair (machine : Transducer State Input Output) (condition : State → State → Input → Prop) :
    State → State → List (Paired Input) → Prop
  | _, _, [] => True
  | first, second, .both input :: rest =>
    condition first second input ∧
      machine.AlongPair condition (machine.step first input).1 (machine.step second input).1 rest
  | first, second, .second input :: rest =>
    machine.AlongPair condition first (machine.step second input).1 rest

instance decidableAlongPair (machine : Transducer State Input Output)
    (condition : State → State → Input → Prop)
    [∀ first second input, Decidable (condition first second input)] :
    (first second : State) → (inputs : List (Paired Input)) →
      Decidable (machine.AlongPair condition first second inputs)
  | _, _, [] => inferInstanceAs (Decidable True)
  | first, second, .both input :: rest =>
    have := decidableAlongPair machine condition (machine.step first input).1
      (machine.step second input).1 rest
    inferInstanceAs (Decidable (condition first second input ∧ _))
  | first, second, .second input :: rest =>
    decidableAlongPair machine condition first (machine.step second input).1 rest

/-- A relation between the states of two runs that every input keeps: a shared one under the
condition and with equal outputs, one of the second run's own, where it is silent, without any. -/
structure Coupling (machine : Transducer State Input Output) (rel : State → State → Prop)
    (condition : State → State → Input → Prop) (silent : Input → Prop) : Prop where
  both : ∀ first second input, rel first second → condition first second input →
    (machine.step first input).2 = (machine.step second input).2 ∧
      rel (machine.step first input).1 (machine.step second input).1
  second : ∀ first second input, rel first second → silent input →
    (machine.step second input).2 = [] ∧ rel first (machine.step second input).1

variable {machine : Transducer State Input Output} {rel : State → State → Prop}
  {condition : State → State → Input → Prop} {silent : Input → Prop}

/-- Assumes: a coupling, related states, and two runs that meet the condition at every shared input
and in which the second run's own inputs are silent ones. The two runs emit the same and end in
related states. -/
theorem Coupling.run (hcoupling : machine.Coupling rel condition silent) {first second : State}
    (hrel : rel first second) {inputs : List (Paired Input)}
    (halong : machine.AlongPair condition first second inputs)
    (hsilent : ∀ input, .second input ∈ inputs → silent input) :
    machine.outputs first (inputs.filterMap Paired.original) =
        machine.outputs second (inputs.map Paired.merged) ∧
      rel (machine.final first (inputs.filterMap Paired.original))
        (machine.final second (inputs.map Paired.merged)) := by
  induction inputs generalizing first second with
  | nil => exact ⟨rfl, hrel⟩
  | cons pair rest ih =>
    have hrest : ∀ input, .second input ∈ rest → silent input :=
      fun input hmem ↦ hsilent input (List.mem_cons_of_mem _ hmem)
    cases pair with
    | both input =>
      obtain ⟨hhere, hthere⟩ := halong
      obtain ⟨houtputs, hnext⟩ := hcoupling.both first second input hrel hhere
      obtain ⟨hlater, hend⟩ := ih hnext hthere hrest
      refine ⟨?_, hend⟩
      show machine.outputs first (input :: rest.filterMap Paired.original) =
        machine.outputs second (input :: rest.map Paired.merged)
      rw [outputs_cons, outputs_cons, houtputs, hlater]
    | second input =>
      obtain ⟨hnothing, hnext⟩ :=
        hcoupling.second first second input hrel (hsilent input List.mem_cons_self)
      obtain ⟨hlater, hend⟩ := ih hnext halong hrest
      refine ⟨?_, hend⟩
      show machine.outputs first (rest.filterMap Paired.original) =
        machine.outputs second (input :: rest.map Paired.merged)
      rw [outputs_cons, hnothing, hlater, List.nil_append]

/-- What holds along two runs holds along their beginnings, and at the shared input that comes
next. -/
theorem alongPair_append_both {first second : State} {before : List (Paired Input)} {input : Input}
    {after : List (Paired Input)}
    (halong : machine.AlongPair condition first second (before ++ .both input :: after)) :
    machine.AlongPair condition first second before ∧
      condition (machine.final first (before.filterMap Paired.original))
        (machine.final second (before.map Paired.merged)) input := by
  induction before generalizing first second with
  | nil => exact ⟨trivial, halong.1⟩
  | cons pair rest ih =>
    cases pair with
    | both earlier =>
      obtain ⟨hbefore, hhere⟩ := ih halong.2
      exact ⟨⟨halong.1, hbefore⟩, hhere⟩
    | second earlier => exact ih halong

/-- Assumes: a coupling, related states, and two runs that meet the condition at every shared input
and in which the second run's own inputs are silent ones. At each shared input the two runs emit the
same. -/
theorem Coupling.outputs_at (hcoupling : machine.Coupling rel condition silent)
    {first second : State} (hrel : rel first second) {before : List (Paired Input)} {input : Input}
    {after : List (Paired Input)}
    (halong : machine.AlongPair condition first second (before ++ .both input :: after))
    (hsilent : ∀ input, .second input ∈ before → silent input) :
    (machine.step (machine.final first (before.filterMap Paired.original)) input).2 =
      (machine.step (machine.final second (before.map Paired.merged)) input).2 := by
  obtain ⟨hbefore, hhere⟩ := alongPair_append_both halong
  exact (hcoupling.both _ _ input (hcoupling.run hrel hbefore hsilent).2 hhere).1

end Transducer
