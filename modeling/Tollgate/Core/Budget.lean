import Tollgate.Core.Delivery

/-!
# The budget of a delivery

`BudgetGuard::apply` over whole runs of readings. The guard keeps the last reading that it accepted
and refuses what falls below it in any total, so what it has journalled never decreases
(`noDecrease_final`). A cap that is reached by one total is reached by every higher one, so an
exhausted budget stays exhausted (`isSome_of_exhausted`).
-/

set_option autoImplicit false
set_option relaxedAutoImplicit false

namespace Tollgate

/-! ### Readings that go forward -/

/-- No total of a reading is below that of an earlier one. -/
structure Progress.NoDecrease (earlier later : Progress) : Prop where
  units_le : earlier.unitsTotal ≤ later.unitsTotal
  seconds_le : earlier.secondsTotal ≤ later.secondsTotal
  cost_le : earlier.costMillisTotal ≤ later.costMillisTotal

instance Progress.decidableNoDecrease (earlier later : Progress) :
    Decidable (earlier.NoDecrease later) :=
  decidable_of_iff
    (earlier.unitsTotal ≤ later.unitsTotal ∧ earlier.secondsTotal ≤ later.secondsTotal ∧
      earlier.costMillisTotal ≤ later.costMillisTotal)
    ⟨fun hle ↦ ⟨hle.1, hle.2.1, hle.2.2⟩, fun hle ↦ ⟨hle.units_le, hle.seconds_le, hle.cost_le⟩⟩

namespace Progress.NoDecrease

theorem refl (progress : Progress) : progress.NoDecrease progress :=
  ⟨UInt64.le_refl _, UInt64.le_refl _, UInt64.le_refl _⟩

theorem trans {first second third : Progress} (hfirst : first.NoDecrease second)
    (hsecond : second.NoDecrease third) : first.NoDecrease third :=
  ⟨UInt64.le_trans hfirst.units_le hsecond.units_le,
    UInt64.le_trans hfirst.seconds_le hsecond.seconds_le,
    UInt64.le_trans hfirst.cost_le hsecond.cost_le⟩

end Progress.NoDecrease

/-- One of the caps that are set is reached. -/
structure Caps.Reached (caps : Caps) (reading : Progress) : Prop where
  some_cap : (∃ max, caps.maxUnits = some max ∧ max ≤ reading.unitsTotal) ∨
    (∃ max, caps.maxSeconds = some max ∧ max ≤ reading.secondsTotal) ∨
    ∃ max, caps.maxCostMillis = some max ∧ max ≤ reading.costMillisTotal

/-- A cap that is reached stays reached. -/
theorem Caps.Reached.mono {caps : Caps} {earlier later : Progress}
    (hreached : caps.Reached earlier) (hforward : earlier.NoDecrease later) :
    caps.Reached later := by
  rcases hreached.some_cap with ⟨max, hcap, hle⟩ | ⟨max, hcap, hle⟩ | ⟨max, hcap, hle⟩
  · exact ⟨.inl ⟨max, hcap, UInt64.le_trans hle hforward.units_le⟩⟩
  · exact ⟨.inr (.inl ⟨max, hcap, UInt64.le_trans hle hforward.seconds_le⟩)⟩
  · exact ⟨.inr (.inr ⟨max, hcap, UInt64.le_trans hle hforward.cost_le⟩)⟩

/-! ### One reading -/

namespace BudgetGuard

variable (guard : BudgetGuard) (reading : Progress)

/-- The guard refuses exactly what goes backwards. -/
theorem nonMonotonic_eq_false_iff {guard : BudgetGuard} {progress : Progress} :
    guard.nonMonotonic progress = false ↔ guard.last.NoDecrease progress := by
  simp only [nonMonotonic, Bool.or_eq_false_iff, decide_eq_false_iff_not, UInt64.not_lt]
  exact ⟨fun hle ↦ ⟨hle.1.1, hle.1.2, hle.2⟩,
    fun hle ↦ ⟨⟨hle.units_le, hle.seconds_le⟩, hle.cost_le⟩⟩

/-- A cap is exhausted when one that is set is reached. -/
theorem isSome_exhausted_iff :
    guard.exhausted.isSome = true ↔ guard.grant.caps.Reached guard.last := by
  have hany (cap : Option UInt64) (total : UInt64) :
      (cap.any fun max ↦ decide (max ≤ total)) = true ↔ ∃ max, cap = some max ∧ max ≤ total := by
    cases cap <;> simp
  unfold exhausted
  constructor
  · intro hsome
    split_ifs at hsome with hunits hseconds hcost
    · exact ⟨.inl ((hany _ _).mp hunits)⟩
    · exact ⟨.inr (.inl ((hany _ _).mp hseconds))⟩
    · exact ⟨.inr (.inr ((hany _ _).mp hcost))⟩
    · exact absurd hsome (by decide)
  · intro hreached
    split_ifs with hunits hseconds hcost
    · rfl
    · rfl
    · rfl
    · rcases hreached.some_cap with hcap | hcap | hcap
      · exact absurd ((hany _ _).mpr hcap) hunits
      · exact absurd ((hany _ _).mpr hcap) hseconds
      · exact absurd ((hany _ _).mpr hcap) hcost

/-- A reading that goes forward is journalled. -/
theorem apply_of_noDecrease {guard : BudgetGuard} {reading : Progress}
    (hforward : guard.last.NoDecrease reading) :
    guard.apply reading =
      ({ guard with last := reading },
        .ok ({ guard with last := reading } : BudgetGuard).exhausted) :=
  if_neg (by simp [nonMonotonic_eq_false_iff.mpr hforward])

/-- One that goes backwards is refused, and the guard stays as it was. -/
theorem apply_of_not_noDecrease {guard : BudgetGuard} {reading : Progress}
    (hback : ¬ guard.last.NoDecrease reading) :
    guard.apply reading = (guard, .error .nonMonotonicProgress) :=
  if_pos (by
    rw [← nonMonotonic_eq_false_iff] at hback
    simpa using hback)

/-- What is journalled never decreases. -/
theorem noDecrease_apply : guard.last.NoDecrease (guard.apply reading).1.last := by
  by_cases hforward : guard.last.NoDecrease reading
  · rw [apply_of_noDecrease hforward]
    exact hforward
  · rw [apply_of_not_noDecrease hforward]
    exact .refl _

/-- A reading is accepted exactly if it goes forward, and the result tells whether a cap is reached
by then. -/
theorem apply_eq_ok_iff (result : Option TerminalKind) :
    (guard.apply reading).2 = .ok result ↔
      guard.last.NoDecrease reading ∧
        result = ({ guard with last := reading } : BudgetGuard).exhausted := by
  by_cases hforward : guard.last.NoDecrease reading
  · rw [apply_of_noDecrease hforward, and_iff_right hforward]
    exact ⟨fun hok ↦ (Except.ok.inj hok).symm, fun hresult ↦ congrArg _ hresult.symm⟩
  · rw [apply_of_not_noDecrease hforward]
    exact iff_of_false (by simp) fun haccepted ↦ hforward haccepted.1

/-! ### Runs of readings -/

/-- The guard over a run of readings, with the result of each. -/
def machine : Transducer BudgetGuard Progress (Except AlarmReason (Option TerminalKind)) where
  step guard reading := ((guard.apply reading).1, [(guard.apply reading).2])

/-- A reading if it is accepted. -/
def accepted (guard : BudgetGuard) (reading : Progress) : List Progress :=
  match (guard.apply reading).2 with
  | .ok _ => [reading]
  | .error _ => []

/-- The last of some readings that was accepted; without one, what the guard started from. -/
def lastAccepted (guard : BudgetGuard) (readings : List Progress) : Progress :=
  (machine.observe accepted guard readings).getLast?.getD guard.last

/-- The grant stays. -/
theorem grant_final (readings : List Progress) :
    (machine.final guard readings).grant = guard.grant :=
  machine.final_invariant (fun other ↦ other.grant = guard.grant)
    (fun other reading hgrant ↦ (other.apply_grant reading).trans hgrant) rfl readings

/-- The journalled reading is the last one that was accepted. -/
theorem last_final (readings : List Progress) :
    (machine.final guard readings).last = guard.lastAccepted readings := by
  induction readings using List.reverseRecOn with
  | nil => rfl
  | append_singleton readings reading ih =>
    rw [lastAccepted, Transducer.observe_append, Transducer.final_append]
    have hone : machine.observe accepted (machine.final guard readings) [reading] =
        (machine.final guard readings).accepted reading := List.append_nil _
    rw [hone, accepted]
    show ((machine.final guard readings).apply reading).1.last = _
    by_cases hforward : (machine.final guard readings).last.NoDecrease reading
    · rw [apply_of_noDecrease hforward]
      simp
    · rw [apply_of_not_noDecrease hforward, ih, lastAccepted]
      simp

/-- Between any two points of a run no total decreases. -/
theorem noDecrease_final (readings : List Progress) :
    guard.last.NoDecrease (machine.final guard readings).last :=
  machine.final_invariant (fun other ↦ guard.last.NoDecrease other.last)
    (fun other reading hforward ↦ hforward.trans (other.noDecrease_apply reading)) (.refl _)
    readings

/-- Assumes: a guard that has reached a cap. Every reading that it accepts from there on finds a cap
exhausted. -/
theorem isSome_of_exhausted {guard : BudgetGuard} (hreached : guard.grant.caps.Reached guard.last)
    (readings : List Progress) {reading : Progress} {result : Option TerminalKind}
    (haccepted : ((machine.final guard readings).apply reading).2 = .ok result) :
    result.isSome = true := by
  obtain ⟨hforward, rfl⟩ :=
    ((machine.final guard readings).apply_eq_ok_iff reading result).mp haccepted
  rw [isSome_exhausted_iff]
  show (machine.final guard readings).grant.caps.Reached reading
  rw [grant_final]
  exact hreached.mono ((guard.noDecrease_final readings).trans hforward)

/-- What holds of a guard in every run of readings from a grant. -/
structure Lawful (grant : Grant) : Prop where
  /-- The journal holds the last reading that was accepted. -/
  journalled_eq : ∀ readings, (machine.final (new grant) readings).journalled =
    (new grant).lastAccepted readings
  /-- It never decreases. -/
  journalled_forward : ∀ readings more, (machine.final (new grant) readings).journalled.NoDecrease
    (machine.final (new grant) (readings ++ more)).journalled
  /-- A reading is refused exactly if one of its totals is below the journalled one. -/
  refused_iff : ∀ readings reading,
    (∃ reason, ((machine.final (new grant) readings).apply reading).2 = .error reason) ↔
      let last := (machine.final (new grant) readings).journalled
      reading.unitsTotal < last.unitsTotal ∨ reading.secondsTotal < last.secondsTotal ∨
        reading.costMillisTotal < last.costMillisTotal
  /-- It then changes nothing. -/
  refused_unchanged : ∀ readings reading reason,
    ((machine.final (new grant) readings).apply reading).2 = .error reason →
      (machine.final (new grant) (readings ++ [reading])) = machine.final (new grant) readings
  /-- Once a cap was exhausted, one is for every reading that is accepted later. -/
  exhausted_final : ∀ readings reading kind more later result,
    ((machine.final (new grant) readings).apply reading).2 = .ok (some kind) →
    ((machine.final (new grant) (readings ++ reading :: more)).apply later).2 = .ok result →
      result.isSome = true

theorem lawful (grant : Grant) : Lawful grant where
  journalled_eq readings := last_final _ readings
  journalled_forward readings more := by
    rw [Transducer.final_append]
    exact noDecrease_final _ more
  refused_iff readings reading := by
    generalize machine.final (new grant) readings = guard
    have hbelow : ¬ guard.last.NoDecrease reading ↔
        reading.unitsTotal < guard.last.unitsTotal ∨
          reading.secondsTotal < guard.last.secondsTotal ∨
          reading.costMillisTotal < guard.last.costMillisTotal := by
      rw [← nonMonotonic_eq_false_iff, Bool.not_eq_false, nonMonotonic]
      simp [or_assoc]
    refine Iff.trans ?_ hbelow
    by_cases hforward : guard.last.NoDecrease reading
    · rw [apply_of_noDecrease hforward]
      exact iff_of_false (by simp) (not_not.mpr hforward)
    · rw [apply_of_not_noDecrease hforward]
      exact iff_of_true ⟨_, rfl⟩ hforward
  refused_unchanged readings reading reason hrefused := by
    rw [Transducer.final_append]
    show ((machine.final (new grant) readings).apply reading).1 = _
    by_cases hforward : (machine.final (new grant) readings).last.NoDecrease reading
    · rw [apply_of_noDecrease hforward] at hrefused
      exact absurd hrefused (by simp)
    · rw [apply_of_not_noDecrease hforward]
  exhausted_final readings reading kind more later result hexhausted haccepted := by
    rw [Transducer.final_append, Transducer.final_cons] at haccepted
    refine isSome_of_exhausted ?_ more haccepted
    obtain ⟨hforward, hkind⟩ :=
      ((machine.final (new grant) readings).apply_eq_ok_iff reading _).mp hexhausted
    show ((machine.final (new grant) readings).apply reading).1.grant.caps.Reached
      ((machine.final (new grant) readings).apply reading).1.last
    rw [apply_of_noDecrease hforward, ← isSome_exhausted_iff, ← hkind]
    rfl

end BudgetGuard

/-! ### The engine -/

namespace DeliveryEngine

/-- An engine with a grant stops the delivery for a reading exactly if the guard accepts it and one
of the caps that are set is reached. -/
theorem progress_stops_iff {engine : DeliveryEngine} {guard : BudgetGuard}
    (hguard : engine.guard = some guard) (reading : Progress) :
    (∃ nonce, .stopDelivery nonce ∈ (engine.handle (.progressObserved reading)).2) ↔
      (∃ result, (guard.apply reading).2 = .ok result) ∧ guard.grant.caps.Reached reading := by
  simp only [handle, hguard]
  by_cases hforward : guard.last.NoDecrease reading
  · have hreached := ({ guard with last := reading } : BudgetGuard).isSome_exhausted_iff
    rw [BudgetGuard.apply_of_noDecrease hforward]
    cases hexhausted : ({ guard with last := reading } : BudgetGuard).exhausted with
    | none =>
      rw [hexhausted] at hreached
      exact iff_of_false (by simp) fun hstops ↦ absurd (hreached.mpr hstops.2) (by decide)
    | some kind =>
      rw [hexhausted] at hreached
      exact iff_of_true ⟨_, List.mem_singleton.mpr rfl⟩ ⟨⟨_, rfl⟩, hreached.mp rfl⟩
  · rw [BudgetGuard.apply_of_not_noDecrease hforward]
    exact iff_of_false (by simp) (by simp)

end DeliveryEngine

/-- For every grant and every run of readings: the journal holds the last accepted reading and never
decreases, a reading is refused exactly if it falls below it, exhaustion is final, and an engine
that holds a grant stops the delivery exactly for the accepted readings that reach a cap. -/
theorem budget_monotone_and_final :
    (∀ grant, BudgetGuard.Lawful grant) ∧
      ∀ (engine : DeliveryEngine) (guard : BudgetGuard), engine.guard = some guard →
        engine.phase ≠ .done → ∀ reading,
          (∃ nonce, .stopDelivery nonce ∈ (engine.handle (.progressObserved reading)).2) ↔
            (∃ result, (guard.apply reading).2 = .ok result) ∧ guard.grant.caps.Reached reading :=
  ⟨BudgetGuard.lawful, fun _ _ hguard _ reading ↦ DeliveryEngine.progress_stops_iff hguard reading⟩

end Tollgate
