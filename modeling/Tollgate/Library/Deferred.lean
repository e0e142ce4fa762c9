import Mathlib

/-!
# Deferred effects

Decisions are taken in one order and their effects carried out in another. A `Deferred` state holds
what has been carried out so far and what is still pending, in the order of the decisions, each
effect under the task that has to carry it out; a task carries its own effects out in their order.

`due` is the state once everything pending has been carried out in the order of the decisions. It
only depends on the decisions as long as no effect overtakes one that it does not commute with:
`due_defer`, `due_perform` and `due_immediate` are the three steps, and without pending effects the
state is the one that is due.
-/

set_option autoImplicit false
set_option relaxedAutoImplicit false

/-- What has been carried out, and what is pending in the order of the decisions. -/
structure Deferred (State Task Effect : Type*) where
  state : State
  pending : List (Task × Effect)

namespace Deferred

variable {State Task Effect : Type*} (carry : State → Effect → State)

/-- Carry effects out in their order. -/
def carryAll (state : State) (effects : List Effect) : State :=
  effects.foldl carry state

@[simp] theorem carryAll_nil (state : State) : carryAll carry state [] = state := rfl

@[simp] theorem carryAll_cons (state : State) (effect : Effect) (rest : List Effect) :
    carryAll carry state (effect :: rest) = carryAll carry (carry state effect) rest := rfl

@[simp] theorem carryAll_append (state : State) (first second : List Effect) :
    carryAll carry state (first ++ second) = carryAll carry (carryAll carry state first) second :=
  List.foldl_append

/-- An effect may overtake earlier ones: it commutes with each of them where it passes it. -/
def Overtakes (effect : Effect) : State → List Effect → Prop
  | _, [] => True
  | state, earlier :: rest =>
    carry (carry state earlier) effect = carry (carry state effect) earlier ∧
      Overtakes effect (carry state earlier) rest

variable {carry}

/-- Assumes: a view of the state that every effect respects. A view of what effects lead to is what
they lead to in the view. -/
theorem map_carryAll {View : Type*} {view : State → View} {carryView : View → Effect → View}
    (hview : ∀ state effect, view (carry state effect) = carryView (view state) effect)
    (state : State) (effects : List Effect) :
    view (carryAll carry state effects) = carryAll carryView (view state) effects := by
  induction effects generalizing state with
  | nil => rfl
  | cons effect rest ih => rw [carryAll_cons, carryAll_cons, ih, hview]

/-- Assumes: an effect that may overtake those before it. It makes no difference to carry it out
first. -/
theorem carryAll_overtake {effect : Effect} {state : State} {before : List Effect}
    (hovertakes : Overtakes carry effect state before) (after : List Effect) :
    carryAll carry state (before ++ effect :: after) =
      carryAll carry (carry state effect) (before ++ after) := by
  induction before generalizing state with
  | nil => rfl
  | cons earlier rest ih =>
    rw [List.cons_append, carryAll_cons, ih hovertakes.2, hovertakes.1]
    rfl

/-! ### The three steps -/

variable (carry) in
/-- The state once everything pending has been carried out in the order of the decisions. -/
def due (deferred : Deferred State Task Effect) : State :=
  carryAll carry deferred.state (deferred.pending.map Prod.snd)

/-- A task decides on effects and carries them out later. -/
def defer (deferred : Deferred State Task Effect) (task : Task) (effects : List Effect) :
    Deferred State Task Effect :=
  { deferred with pending := deferred.pending ++ effects.map fun effect ↦ (task, effect) }

/-- What was decided last is carried out last. -/
theorem due_defer (deferred : Deferred State Task Effect) (task : Task) (effects : List Effect) :
    (deferred.defer task effects).due carry = carryAll carry (deferred.due carry) effects := by
  have heffects : (effects.map fun effect ↦ (task, effect)).map Prod.snd = effects := by
    rw [List.map_map]
    exact List.map_id effects
  rw [due, defer, List.map_append, carryAll_append, heffects]
  rfl

/-- Assumes: an effect that may overtake everything pending. Carrying it out at once is carrying it
out when all that was decided before is done. -/
theorem due_immediate {deferred : Deferred State Task Effect} {effect : Effect}
    (hovertakes : Overtakes carry effect deferred.state (deferred.pending.map Prod.snd)) :
    due carry { deferred with state := carry deferred.state effect } =
      carry (deferred.due carry) effect := by
  have hpass := carryAll_overtake hovertakes []
  rw [List.append_nil, carryAll_append] at hpass
  exact hpass.symm

variable [DecidableEq Task]

/-- The effects of other tasks that were decided before the next effect of a task. -/
def ahead (deferred : Deferred State Task Effect) (task : Task) : List (Task × Effect) :=
  deferred.pending.takeWhile fun entry ↦ decide (entry.1 ≠ task)

/-- The next effect of a task, and everything that was decided after it. -/
def queue (deferred : Deferred State Task Effect) (task : Task) : List (Task × Effect) :=
  deferred.pending.dropWhile fun entry ↦ decide (entry.1 ≠ task)

/-- The next effect of a task. -/
def next (deferred : Deferred State Task Effect) (task : Task) : Option Effect :=
  (deferred.queue task).head?.map Prod.snd

variable (carry) in
/-- A task carries its next effect out, if it has one. -/
def perform (deferred : Deferred State Task Effect) (task : Task) : Deferred State Task Effect :=
  match deferred.queue task with
  | entry :: after =>
    { state := carry deferred.state entry.2, pending := deferred.ahead task ++ after }
  | [] => deferred

/-- Assumes: a next effect that may overtake those decided before it. Carrying it out changes
nothing about what is due. -/
theorem due_perform {deferred : Deferred State Task Effect} {task : Task}
    (hovertakes : ∀ effect, deferred.next task = some effect →
      Overtakes carry effect deferred.state ((deferred.ahead task).map Prod.snd)) :
    (deferred.perform carry task).due carry = deferred.due carry := by
  have hsplit : deferred.ahead task ++ deferred.queue task = deferred.pending :=
    List.takeWhile_append_dropWhile
  unfold perform
  cases hqueue : deferred.queue task with
  | nil => rfl
  | cons entry after =>
    have hnext : deferred.next task = some entry.2 := by
      rw [next, hqueue]
      rfl
    have hpass := carryAll_overtake (hovertakes entry.2 hnext) (after.map Prod.snd)
    rw [hqueue] at hsplit
    rw [due, due, ← hsplit, List.map_append, List.map_append, List.map_cons]
    exact hpass.symm

/-! ### A view of the state -/

/-- What is pending over a view of the state. -/
def map {View : Type*} (view : State → View) (deferred : Deferred State Task Effect) :
    Deferred View Task Effect :=
  ⟨view deferred.state, deferred.pending⟩

theorem map_perform {View : Type*} {view : State → View} {carryView : View → Effect → View}
    (hview : ∀ state effect, view (carry state effect) = carryView (view state) effect)
    (deferred : Deferred State Task Effect) (task : Task) :
    (deferred.perform carry task).map view = (deferred.map view).perform carryView task := by
  have hqueue : (deferred.map view).queue task = deferred.queue task := rfl
  unfold perform
  rw [hqueue]
  cases deferred.queue task with
  | nil => rfl
  | cons entry after =>
    show (⟨_, _⟩ : Deferred View Task Effect) = ⟨_, _⟩
    rw [hview]
    rfl

/-- What was pending before a step of a task is pending after it, or is the effect that the step
carries out. -/
theorem mem_perform_or_next {deferred : Deferred State Task Effect} (task : Task)
    {entry : Task × Effect} (hentry : entry ∈ deferred.pending) :
    entry ∈ (deferred.perform carry task).pending ∨ deferred.next task = some entry.2 := by
  have hsplit : deferred.ahead task ++ deferred.queue task = deferred.pending :=
    List.takeWhile_append_dropWhile
  rw [← hsplit] at hentry
  unfold perform next
  cases hqueue : deferred.queue task with
  | nil =>
    rw [hqueue] at hentry hsplit
    rw [← hsplit]
    exact Or.inl hentry
  | cons first after =>
    rw [hqueue] at hentry
    rcases List.mem_append.mp hentry with hahead | hqueued
    · exact Or.inl (List.mem_append_left _ hahead)
    · rcases List.mem_cons.mp hqueued with rfl | hafter
      · exact Or.inr rfl
      · exact Or.inl (List.mem_append_right _ hafter)

/-- What is pending after a step of a task was pending before it. -/
theorem mem_pending_of_perform {deferred : Deferred State Task Effect} {task : Task}
    {entry : Task × Effect} (hentry : entry ∈ (deferred.perform carry task).pending) :
    entry ∈ deferred.pending := by
  have hsplit : deferred.ahead task ++ deferred.queue task = deferred.pending :=
    List.takeWhile_append_dropWhile
  unfold perform at hentry
  rw [← hsplit]
  cases hqueue : deferred.queue task with
  | nil =>
    rw [hqueue] at hentry hsplit
    rw [hsplit]
    exact hentry
  | cons first after =>
    rw [hqueue] at hentry
    rcases List.mem_append.mp hentry with hahead | hafter
    · exact List.mem_append_left _ hahead
    · exact List.mem_append_right _ (List.mem_cons_of_mem _ hafter)

end Deferred
