import Mathlib

/-!
# Sums of increments

A running total that charges, at each new value of a sequence, what the value has grown by since the
one before it, and nothing when it has fallen. `rises start values` is the sum of these increments
and `peak values` the largest value.

Such a total is at least the peak, and `rises_le_peak_iff` says when it is exactly the peak: when
the sequence never rises again after it has fallen. For a sequence that never falls the sum
telescopes (`rises_of_sorted`). The last section compares the sum of truncated quotients with the
quotient of the sum, which is what charging in instalments loses.
-/

set_option autoImplicit false
set_option relaxedAutoImplicit false

namespace Increments

/-- The sum of the increments of a sequence over the value before it. -/
def rises (start : ℕ) : List ℕ → ℕ
  | [] => 0
  | value :: rest => (value - start) + rises value rest

/-- The largest value of a sequence, zero for the empty one. -/
def peak (values : List ℕ) : ℕ :=
  values.foldr max 0

/-- Once the sequence has fallen below one of its values, it does not rise again. -/
def NeverRecovers (values : List ℕ) : Prop :=
  ∀ high low later, [high, low, later].Sublist values → low < high → later ≤ low

@[simp] theorem rises_nil (start : ℕ) : rises start [] = 0 := rfl

@[simp] theorem rises_cons (start value : ℕ) (rest : List ℕ) :
    rises start (value :: rest) = (value - start) + rises value rest := rfl

@[simp] theorem peak_nil : peak [] = 0 := rfl

@[simp] theorem peak_cons (value : ℕ) (rest : List ℕ) :
    peak (value :: rest) = max value (peak rest) := rfl

/-- The increments reach every value from the start. -/
theorem peak_le_rises (start : ℕ) (values : List ℕ) :
    max start (peak values) ≤ start + rises start values := by
  induction values generalizing start with
  | nil => simp
  | cons value rest ih =>
    have hrest := ih value
    rw [rises_cons, peak_cons]
    omega

/-- There is no increment exactly when the sequence never rises, not even above its start. -/
theorem rises_eq_zero_iff (start : ℕ) (values : List ℕ) :
    rises start values = 0 ↔ (start :: values).Pairwise (· ≥ ·) := by
  induction values generalizing start with
  | nil => simp
  | cons value rest ih =>
    rw [rises_cons, Nat.add_eq_zero_iff, ih, List.pairwise_cons (a := start)]
    constructor
    · rintro ⟨hfirst, hrest⟩
      have hle : value ≤ start := by omega
      refine ⟨fun later hlater ↦ ?_, hrest⟩
      rcases List.mem_cons.mp hlater with rfl | hlater
      · exact hle
      · exact ((List.pairwise_cons.mp hrest).1 later hlater).trans hle
    · rintro ⟨hfirst, hrest⟩
      have hle := hfirst value List.mem_cons_self
      exact ⟨by omega, hrest⟩

/-- Assumes: a sequence whose second value is not below its first. Dropping the first value drops
no recovery. -/
theorem neverRecovers_cons_of_le {start value : ℕ} {rest : List ℕ} (hle : start ≤ value) :
    NeverRecovers (start :: value :: rest) ↔ NeverRecovers (value :: rest) := by
  constructor
  · exact fun hnever high low later hsub ↦ hnever high low later (hsub.cons _)
  · intro hnever high low later hsub hlow
    rcases List.sublist_cons_iff.mp hsub with hsub | ⟨tail, htail, hsub⟩
    · exact hnever high low later hsub hlow
    · obtain ⟨rfl, rfl⟩ := List.cons.inj htail
      -- The pair that follows the first value also follows the second, which is at least as high.
      rcases List.sublist_cons_iff.mp hsub with hsub | ⟨tail, htail, hsub⟩
      · exact hnever value low later (hsub.cons_cons _) (by omega)
      · obtain ⟨rfl, rfl⟩ := List.cons.inj htail
        omega

/-- Assumes: a sequence whose second value is below its first. It never recovers exactly when it
never rises from there on. -/
theorem neverRecovers_cons_of_lt {start value : ℕ} {rest : List ℕ} (hlt : value < start) :
    NeverRecovers (start :: value :: rest) ↔ (value :: rest).Pairwise (· ≥ ·) := by
  constructor
  · intro hnever
    have hbelow : ∀ later ∈ rest, later ≤ value := by
      intro later hlater
      refine hnever start value later ?_ hlt
      exact ((List.singleton_sublist.mpr hlater).cons_cons _).cons_cons _
    rw [List.pairwise_iff_forall_sublist]
    intro low later hsub
    have hlow : low ≤ value := by
      rcases List.mem_cons.mp (hsub.subset List.mem_cons_self) with rfl | hmem
      · exact le_rfl
      · exact hbelow low hmem
    exact hnever start low later (hsub.cons_cons _) (by omega)
  · intro hfalls high low later hsub hlow
    have htail : [low, later].Sublist (value :: rest) := by
      rcases List.sublist_cons_iff.mp hsub with hsub | ⟨tail, htail, hsub⟩
      · exact (List.sublist_cons_self high [low, later]).trans hsub
      · obtain ⟨-, rfl⟩ := List.cons.inj htail
        exact hsub
    exact (List.pairwise_iff_forall_sublist.mp hfalls) htail

/-- From any start, the increments add up to no more than the climb to the peak exactly when the
sequence, its start included, never recovers. -/
theorem rises_le_climb_iff (start : ℕ) (values : List ℕ) :
    start + rises start values ≤ max start (peak values) ↔ NeverRecovers (start :: values) := by
  induction values generalizing start with
  | nil =>
    refine iff_of_true (by simp) fun high low later hsub ↦ ?_
    have hlength := hsub.length_le
    simp only [List.length_cons, List.length_nil] at hlength
    omega
  | cons value rest ih =>
    rw [rises_cons, peak_cons]
    by_cases hle : start ≤ value
    · rw [neverRecovers_cons_of_le hle, ← ih value]
      omega
    · have hlt : value < start := by omega
      rw [neverRecovers_cons_of_lt hlt, ← rises_eq_zero_iff]
      have hpeak := peak_le_rises value rest
      omega

/-- The sum of the increments from zero is at most the peak exactly when the sequence never
recovers. -/
theorem rises_le_peak_iff (values : List ℕ) :
    rises 0 values ≤ peak values ↔ NeverRecovers values := by
  have hclimb := rises_le_climb_iff 0 values
  rw [Nat.zero_add, Nat.zero_max] at hclimb
  rw [hclimb]
  constructor
  · exact fun hnever high low later hsub ↦ hnever high low later (hsub.cons _)
  · intro hnever high low later hsub hlow
    rcases List.sublist_cons_iff.mp hsub with hsub | ⟨tail, htail, hsub⟩
    · exact hnever high low later hsub hlow
    · obtain ⟨rfl, -⟩ := List.cons.inj htail
      omega

/-- Assumes: a sequence that never falls, its start included. The increments telescope. -/
theorem rises_of_sorted {start last : ℕ} {values : List ℕ}
    (hsorted : (start :: (values ++ [last])).Pairwise (· ≤ ·)) :
    start + rises start (values ++ [last]) = last := by
  induction values generalizing start with
  | nil =>
    have hle := (List.pairwise_cons.mp hsorted).1 last List.mem_cons_self
    rw [List.nil_append, rises_cons, rises_nil]
    omega
  | cons value rest ih =>
    obtain ⟨hfirst, hrest⟩ := List.pairwise_cons.mp hsorted
    have hle := hfirst value List.mem_cons_self
    have htail := ih hrest
    rw [List.cons_append, rises_cons]
    omega

/-! ### Truncated quotients of parts and of the whole -/

/-- The truncated quotients of the parts add up to no more than the quotient of the whole. -/
theorem sum_div_le (amounts : List ℕ) (divisor : ℕ) :
    (amounts.map (· / divisor)).sum ≤ amounts.sum / divisor := by
  induction amounts with
  | nil => simp
  | cons amount rest ih =>
    rw [List.map_cons, List.sum_cons, List.sum_cons]
    calc amount / divisor + (rest.map (· / divisor)).sum
        ≤ amount / divisor + rest.sum / divisor := Nat.add_le_add_left ih _
      _ ≤ (amount + rest.sum) / divisor := Nat.div_add_div_le_add_div

/-- Each part loses less than one in its quotient, so with the whole's own truncation the parts
lose less than their number. -/
theorem div_sum_lt {divisor : ℕ} (hdivisor : 0 < divisor) {amounts : List ℕ}
    (hamounts : amounts ≠ []) :
    amounts.sum / divisor < (amounts.map (· / divisor)).sum + amounts.length := by
  rw [Nat.div_lt_iff_lt_mul hdivisor]
  induction amounts with
  | nil => exact absurd rfl hamounts
  | cons amount rest ih =>
    have hamount : amount < (amount / divisor + 1) * divisor := by
      rw [Nat.mul_comm]
      exact Nat.lt_mul_div_succ amount hdivisor
    rw [List.map_cons, List.sum_cons, List.sum_cons, List.length_cons]
    by_cases hrest : rest = []
    · subst hrest
      simpa using hamount
    · have htail := ih hrest
      calc amount + rest.sum
          < (amount / divisor + 1) * divisor +
              ((rest.map (· / divisor)).sum + rest.length) * divisor :=
            Nat.add_lt_add hamount htail
        _ = (amount / divisor + (rest.map (· / divisor)).sum + (rest.length + 1)) * divisor := by
            ring

end Increments
