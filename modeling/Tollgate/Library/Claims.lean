import Mathlib

/-!
# Claims on keys

Tasks look keys up in a register, claim those that it does not have, record them, and settle. A look
and the record of its outcome are separate moves, so two tasks may claim the same key unless
something keeps them apart. `Claims.Sound` is what a register guarantees if nothing slips between a
look and its record: no two tasks claim a key, and nobody claims a key that is settled. The moves
keep it, `Claims.Sound.take` under the one condition that the register itself cannot check.
-/

set_option autoImplicit false
set_option relaxedAutoImplicit false

/-- A register of keys, what has been settled, and what each task claims; a task has committed once
its claim is recorded. -/
@[ext] structure Claims (Task Key : Type*) where
  recorded : Set Key
  settled : Set Key
  claim : Task → Set Key
  committed : Set Task

namespace Claims

variable {Task Key : Type*}

/-- What is settled is recorded, and so is what a committed task claims; claims are apart from what
is settled and from each other. -/
structure Sound (claims : Claims Task Key) : Prop where
  settled_recorded : claims.settled ⊆ claims.recorded
  committed_recorded : ∀ task ∈ claims.committed, claims.claim task ⊆ claims.recorded
  apart : ∀ task, Disjoint (claims.claim task) claims.settled
  separate : ∀ first second, first ≠ second →
    Disjoint (claims.claim first) (claims.claim second)

variable [DecidableEq Task]

/-- A task claims keys in place of what it claimed before. -/
def take (claims : Claims Task Key) (task : Task) (keys : Set Key) : Claims Task Key :=
  { claims with
    claim := Function.update claims.claim task keys
    committed := claims.committed \ {task} }

/-- A task records what it claims. -/
def commit (claims : Claims Task Key) (task : Task) : Claims Task Key :=
  { claims with
    recorded := claims.recorded ∪ claims.claim task
    committed := insert task claims.committed }

/-- A task settles what it claims. -/
def settle (claims : Claims Task Key) (task : Task) : Claims Task Key :=
  { claims.take task ∅ with settled := claims.settled ∪ claims.claim task }

/-- Every claim is dropped and the register is replaced. -/
def reset (claims : Claims Task Key) (recorded : Set Key) : Claims Task Key where
  recorded := recorded
  settled := claims.settled
  claim _ := ∅
  committed := ∅

variable {claims : Claims Task Key} {task : Task}

/-- Assumes: keys that are not recorded and that no task claims without having committed. A task may
claim them. -/
theorem Sound.take (hsound : claims.Sound) {keys : Set Key}
    (hfresh : Disjoint keys claims.recorded)
    (hfree : ∀ other, other ≠ task → other ∉ claims.committed →
      Disjoint keys (claims.claim other)) : (claims.take task keys).Sound := by
  have hclaim {other : Task} (hother : other ≠ task) :
      (claims.take task keys).claim other = claims.claim other :=
    Function.update_of_ne hother _ _
  have hown : (claims.take task keys).claim task = keys := Function.update_self _ _ _
  have hseparate : ∀ other, other ≠ task → Disjoint keys (claims.claim other) := by
    intro other hother
    by_cases hcommitted : other ∈ claims.committed
    · exact hfresh.mono_right (hsound.committed_recorded other hcommitted)
    · exact hfree other hother hcommitted
  refine ⟨hsound.settled_recorded, ?_, ?_, ?_⟩
  · rintro other ⟨hcommitted, hother⟩
    rw [hclaim hother]
    exact hsound.committed_recorded other hcommitted
  · intro other
    by_cases hother : other = task
    · rw [hother, hown]
      exact hfresh.mono_right hsound.settled_recorded
    · rw [hclaim hother]
      exact hsound.apart other
  · intro first second hne
    by_cases hfirst : first = task
    · rw [hfirst, hown, hclaim (hfirst ▸ hne.symm)]
      exact hseparate second (hfirst ▸ hne.symm)
    · by_cases hsecond : second = task
      · rw [hsecond, hown, hclaim hfirst]
        exact (hseparate first hfirst).symm
      · rw [hclaim hfirst, hclaim hsecond]
        exact hsound.separate first second hne

/-- A task may always drop its claim. -/
theorem Sound.release (hsound : claims.Sound) : (claims.take task ∅).Sound :=
  hsound.take (Set.empty_disjoint _) fun _ _ _ ↦ Set.empty_disjoint _

omit [DecidableEq Task] in
theorem Sound.commit (hsound : claims.Sound) : (claims.commit task).Sound := by
  refine ⟨hsound.settled_recorded.trans Set.subset_union_left, ?_, hsound.apart, hsound.separate⟩
  rintro other (rfl | hcommitted)
  · exact Set.subset_union_right
  · exact (hsound.committed_recorded other hcommitted).trans Set.subset_union_left

/-- Assumes: a task that has committed. It may settle. -/
theorem Sound.settle (hsound : claims.Sound) (hcommitted : task ∈ claims.committed) :
    (claims.settle task).Sound := by
  have hreleased : (claims.take task ∅).Sound := hsound.release
  refine ⟨?_, hreleased.committed_recorded, ?_, hreleased.separate⟩
  · exact Set.union_subset hsound.settled_recorded
      (hsound.committed_recorded task hcommitted)
  · intro other
    refine Disjoint.union_right (hreleased.apart other) ?_
    by_cases hother : other = task
    · rw [hother]
      show Disjoint (Function.update claims.claim task ∅ task) _
      rw [Function.update_self]
      exact Set.empty_disjoint _
    · show Disjoint (Function.update claims.claim task ∅ other) _
      rw [Function.update_of_ne hother]
      exact hsound.separate other task hother

omit [DecidableEq Task] in
/-- Assumes: a register that has what is settled. It may replace the one that was there. -/
theorem reset_sound {recorded : Set Key} (hsettled : claims.settled ⊆ recorded) :
    (claims.reset recorded).Sound :=
  ⟨hsettled, fun _ hcommitted ↦ absurd hcommitted (Set.notMem_empty _),
    fun _ ↦ Set.empty_disjoint _, fun _ _ _ ↦ Set.empty_disjoint _⟩

end Claims
