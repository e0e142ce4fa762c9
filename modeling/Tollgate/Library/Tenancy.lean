import Mathlib.Data.List.Infix
import Mathlib.Data.List.Count

/-!
# A place for one tenant

Somebody enters a vacant place and then either leaves it again or settles. While one is settled
others are refused, until the place is vacated. `History` are the sequences of events that keep to
these rules. From the moment somebody who settles has entered until the place is vacated, nothing
happens but refusals: `History.eq_nil_of_settles` and `History.isRefused_of_not_vacated`. Hence only
one settles between two vacations, `History.countP_isSettling_le_one`.
-/

set_option autoImplicit false
set_option relaxedAutoImplicit false

universe u

namespace Tenancy

/-- What can happen at a place. -/
inductive Event (Tenant : Type u)
  | enters (tenant : Tenant)
  | leaves (tenant : Tenant)
  | settles (tenant : Tenant)
  | isRefused (tenant : Tenant)
  | isVacated

/-- How a place stands. -/
inductive Phase (Tenant : Type u)
  | vacant
  | entering (tenant : Tenant)
  | settled (tenant : Tenant)

variable {Tenant : Type u}

def Event.isSettling : Event Tenant → Bool
  | .settles _ => true
  | .enters _ | .leaves _ | .isRefused _ | .isVacated => false

/-- The rules of the place. -/
inductive Turn : Phase Tenant → Event Tenant → Phase Tenant → Prop
  | enter (tenant : Tenant) : Turn .vacant (.enters tenant) (.entering tenant)
  | leave (tenant : Tenant) : Turn (.entering tenant) (.leaves tenant) .vacant
  | settle (tenant : Tenant) : Turn (.entering tenant) (.settles tenant) (.settled tenant)
  | refuse (tenant other : Tenant) : Turn (.settled tenant) (.isRefused other) (.settled tenant)
  | vacate (tenant : Tenant) : Turn (.settled tenant) .isVacated .vacant

/-- A sequence of events that keeps to the rules, from one phase to another. -/
inductive History : Phase Tenant → List (Event Tenant) → Phase Tenant → Prop
  | nil (phase : Phase Tenant) : History phase [] phase
  | cons {phase next last : Phase Tenant} {event : Event Tenant} {events : List (Event Tenant)} :
    Turn phase event next → History next events last → History phase (event :: events) last

namespace History

variable {phase last : Phase Tenant} {tenant : Tenant} {events first second : List (Event Tenant)}

theorem single {event : Event Tenant} (hturn : Turn phase event last) :
    History phase [event] last :=
  .cons hturn (.nil last)

theorem append {middle : Phase Tenant} (hfirst : History phase first middle)
    (hsecond : History middle second last) : History phase (first ++ second) last := by
  induction hfirst with
  | nil _ => exact hsecond
  | cons hturn _ ih => exact .cons hturn (ih hsecond)

theorem split (hhistory : History phase (first ++ second) last) :
    ∃ middle, History phase first middle ∧ History middle second last := by
  induction first generalizing phase with
  | nil => exact ⟨phase, .nil phase, hhistory⟩
  | cons event rest ih =>
    cases hhistory with
    | cons hturn hrest =>
      obtain ⟨middle, hfirst, hsecond⟩ := ih hrest
      exact ⟨middle, .cons hturn hfirst, hsecond⟩

/-- Assumes: a settled place that is not vacated. All that happens are refusals. -/
theorem isRefused_of_not_vacated (hhistory : History (.settled tenant) events last)
    (hstays : Event.isVacated ∉ events) : ∀ event ∈ events, ∃ other, event = .isRefused other := by
  induction events with
  | nil => exact fun event hevent ↦ absurd hevent List.not_mem_nil
  | cons first rest ih =>
    rw [List.mem_cons, not_or] at hstays
    cases hhistory with
    | cons hturn hrest =>
      cases hturn with
      | refuse _ other =>
        intro event hevent
        rcases List.mem_cons.mp hevent with rfl | hevent
        · exact ⟨other, rfl⟩
        · exact ih hrest hstays.2 event hevent
      | vacate => exact absurd rfl hstays.1

/-- Assumes: a history that ends with somebody entering. He has entered on the way, unless he was
entering in the beginning. -/
theorem enters_mem_of_entering (hhistory : History phase events (.entering tenant))
    (hphase : phase ≠ .entering tenant) : .enters tenant ∈ events := by
  induction events generalizing phase with
  | nil =>
    cases hhistory
    exact absurd rfl hphase
  | cons event rest ih =>
    cases hhistory with
    | @cons _ next _ _ _ hturn hrest =>
      by_cases hnext : next = .entering tenant
      · subst hnext
        cases hturn
        exact List.mem_cons_self
      · exact List.mem_cons_of_mem event (ih hrest hnext)

/-- Assumes: somebody who is entering and settles without entering once more. He settles next. -/
theorem eq_nil_of_settles
    (hhistory : History (.entering tenant) (first ++ .settles tenant :: second) last)
    (honce : .enters tenant ∉ first) : first = [] ∧ History (.settled tenant) second last := by
  obtain ⟨middle, hfirst, hrest⟩ := hhistory.split
  cases hrest with
  | cons hturn hsecond =>
    cases hturn
    refine ⟨?_, hsecond⟩
    cases hfirst with
    | nil => rfl
    | cons hturn hfirst =>
      -- Whatever he does first, he is not entering any more.
      refine absurd (List.mem_cons_of_mem _ (hfirst.enters_mem_of_entering ?_)) honce
      cases hturn with
      | leave => simp
      | settle => simp

/-- Whoever has entered has left or settled, or is entering still. -/
theorem left_or_settled (hhistory : History phase events last)
    (hentered : .enters tenant ∈ events) :
    last = .entering tenant ∨ .leaves tenant ∈ events ∨ .settles tenant ∈ events := by
  induction hhistory with
  | nil _ => exact absurd hentered List.not_mem_nil
  | @cons phase next last event rest hturn hrest ih =>
    by_cases hlater : .enters tenant ∈ rest
    · exact (ih hlater).imp_right
        (Or.imp (List.mem_cons_of_mem event) (List.mem_cons_of_mem event))
    · obtain rfl : event = .enters tenant :=
        ((List.mem_cons.mp hentered).resolve_right hlater).symm
      cases hturn with
      | enter =>
        cases hrest with
        | nil => exact .inl rfl
        | cons hturn _ =>
          cases hturn with
          | leave => exact .inr (.inl (by simp))
          | settle => exact .inr (.inr (by simp))

theorem countP_isSettling_of_settled (hhistory : History (.settled tenant) events last)
    (hstays : Event.isVacated ∉ events) : events.countP Event.isSettling = 0 := by
  rw [List.countP_eq_zero]
  intro event hevent
  obtain ⟨other, rfl⟩ := hhistory.isRefused_of_not_vacated hstays event hevent
  exact Bool.false_ne_true

/-- Assumes: a place that is not vacated. At most one settles. -/
theorem countP_isSettling_le_one (hhistory : History phase events last)
    (hstays : Event.isVacated ∉ events) : events.countP Event.isSettling ≤ 1 := by
  induction hhistory with
  | nil _ => exact Nat.zero_le 1
  | cons hturn hrest ih =>
    rw [List.mem_cons, not_or] at hstays
    rw [List.countP_cons]
    cases hturn with
    | settle tenant =>
      rw [hrest.countP_isSettling_of_settled hstays.2]
      exact Nat.le_refl 1
    | enter => exact ih hstays.2
    | leave => exact ih hstays.2
    | refuse => exact ih hstays.2
    | vacate => exact ih hstays.2

end History

end Tenancy
