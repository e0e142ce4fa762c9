import Tollgate.Core.Settlement

/-!
# Recovery from the journal

`DeliveryEngine.resume` rebuilds an engine from a grant and one reading. It guesses the label of its
phase, and a host may hand it a reading with another time than the guard kept. Neither is visible:
two engines are `Interchangeable` when they hold the same grant, their last readings have the same
totals, and both have settled or neither has. `Interchangeable.handle` says that this is a
bisimulation, `guard_final` that the guard of a run holds the last reading it accepted, and the two
together that a recovered engine cannot be told from the one it replaces.
-/

set_option autoImplicit false
set_option relaxedAutoImplicit false

namespace Tollgate

/-! ### Readings by their totals -/

/-- The totals of a reading: units, seconds and cost. -/
def Progress.totals (progress : Progress) : UInt64 × UInt64 × UInt64 :=
  (progress.unitsTotal, progress.secondsTotal, progress.costMillisTotal)

theorem Progress.totals_eq_iff {first second : Progress} :
    first.totals = second.totals ↔
      first.unitsTotal = second.unitsTotal ∧ first.secondsTotal = second.secondsTotal ∧
        first.costMillisTotal = second.costMillisTotal := by
  simp only [totals, Prod.mk.injEq]

/-- Two guards that decide alike: the same grant, and the same totals last read. -/
structure BudgetGuard.Alike (first second : BudgetGuard) : Prop where
  grant_eq : first.grant = second.grant
  totals_eq : first.last.totals = second.last.totals

namespace BudgetGuard

theorem Alike.nonMonotonic {first second : BudgetGuard} (halike : first.Alike second)
    (progress : Progress) : first.nonMonotonic progress = second.nonMonotonic progress := by
  obtain ⟨hunits, hseconds, hcost⟩ := Progress.totals_eq_iff.mp halike.totals_eq
  simp only [BudgetGuard.nonMonotonic, hunits, hseconds, hcost]

theorem Alike.advance {first second : BudgetGuard} (halike : first.Alike second)
    (progress : Progress) :
    ({ first with last := progress } : BudgetGuard) = { second with last := progress } := by
  rw [halike.grant_eq]

/-- No reading is below the one a new guard starts from. -/
theorem nonMonotonic_new (grant : Grant) (progress : Progress) :
    (new grant).nonMonotonic progress = false := by
  simp [nonMonotonic, new]

end BudgetGuard

namespace DeliveryEngine

/-! ### What an event does to a granted engine -/

section Granted

variable {engine : DeliveryEngine} {guard : BudgetGuard}

theorem nonce_of_guard (hguard : engine.guard = some guard) : engine.nonce = guard.grant.nonce := by
  simp only [nonce, hguard]

theorem settleFromTotals_of_guard (hguard : engine.guard = some guard) (finalCostMillis : UInt64) :
    engine.settleFromTotals finalCostMillis =
      ({ engine with phase := .done },
        [.settleDelivery guard.grant.nonce (settlement guard.grant finalCostMillis),
          .refundChange guard.grant.nonce
            (guard.grant.depositMillis - settlement guard.grant finalCostMillis)]) := by
  simp only [settleFromTotals, hguard]

/-- A second grant is ignored. -/
theorem handle_grantIssued (hidle : engine.phase ≠ .idle) (grant : Grant) :
    engine.handle (.grantIssued grant) = (engine, []) := by
  cases hphase : engine.phase with
  | idle => exact absurd hphase hidle
  | _ => simp only [handle, hphase]

/-- A reading that went backwards raises an alarm; any other is kept, and stops delivery when it
exhausts a cap. -/
theorem handle_progressObserved (hguard : engine.guard = some guard) (progress : Progress) :
    engine.handle (.progressObserved progress) =
      if guard.nonMonotonic progress then
        (engine, [.alarm guard.grant.nonce .nonMonotonicProgress])
      else
        (⟨.delivering, some { guard with last := progress }⟩,
          if ({ guard with last := progress } : BudgetGuard).exhausted.isSome then
            [.stopDelivery guard.grant.nonce]
          else []) := by
  have hsame : ({ engine with guard := some guard } : DeliveryEngine) = engine := by
    rw [← hguard]
  simp only [handle, hguard, nonce_of_guard hguard, BudgetGuard.apply]
  by_cases hrefused : guard.nonMonotonic progress = true
  · simp only [if_pos hrefused, hsame]
  · simp only [if_neg hrefused]
    cases ({ guard with last := progress } : BudgetGuard).exhausted <;> simp

/-- A final report settles an engine that has not settled. -/
theorem handle_terminalObserved (hidle : engine.phase ≠ .idle) (report : TerminalReport) :
    engine.handle (.terminalObserved report) =
      if engine.Done then (engine, []) else engine.settleFromTotals report.costMillisTotal := by
  cases hphase : engine.phase with
  | idle => exact absurd hphase hidle
  | _ => simp [handle, hphase, Done]

/-- A revocation stops an engine that has not settled. -/
theorem handle_revokeRequested (hidle : engine.phase ≠ .idle)
    (hguard : engine.guard = some guard) (now : Millis) :
    engine.handle (.revokeRequested now) =
      (engine, if engine.Done then [] else [.stopDelivery guard.grant.nonce]) := by
  cases hphase : engine.phase with
  | idle => exact absurd hphase hidle
  | _ => simp [handle, hphase, Done, nonce_of_guard hguard]

/-- From the expiry of the lease on, a tick settles at the last reading. -/
theorem handle_tick (hidle : engine.phase ≠ .idle) (hguard : engine.guard = some guard)
    (now : Millis) :
    engine.handle (.tick now) =
      if ¬ engine.Done ∧ guard.grant.lease.expiresAt ≤ now then
        engine.settleFromTotals guard.last.costMillisTotal
      else (engine, []) := by
  cases hphase : engine.phase with
  | idle => exact absurd hphase hidle
  | _ => simp [handle, hguard, hphase, Done, BudgetGuard.journalled]

end Granted

/-! ### The bisimulation -/

/-- Two granted engines that differ in nothing they act on: their guards decide alike, and both have
settled or neither has. The labels `granted` and `delivering` are free. -/
structure Interchangeable (first second : DeliveryEngine) : Prop where
  first_granted : first.phase ≠ .idle
  second_granted : second.phase ≠ .idle
  done_iff : first.Done ↔ second.Done
  guards : ∃ guard other, first.guard = some guard ∧ second.guard = some other ∧ guard.Alike other

namespace Interchangeable

variable {first second : DeliveryEngine}

/-- Settling for the same cost. -/
theorem settle (halike : first.Interchangeable second) (finalCostMillis : UInt64) :
    (first.settleFromTotals finalCostMillis).2 = (second.settleFromTotals finalCostMillis).2 ∧
      (first.settleFromTotals finalCostMillis).1.Interchangeable
        (second.settleFromTotals finalCostMillis).1 := by
  obtain ⟨guard, other, hguard, hother, hguards⟩ := halike.guards
  rw [settleFromTotals_of_guard hguard, settleFromTotals_of_guard hother, hguards.grant_eq]
  exact ⟨rfl, by simp, by simp, by simp [Done], guard, other, hguard, hother, hguards⟩

/-- Reports of the same cost, whatever else they say. -/
theorem terminalObserved (halike : first.Interchangeable second) {report other : TerminalReport}
    (hcost : report.costMillisTotal = other.costMillisTotal) :
    (first.handle (.terminalObserved report)).2 = (second.handle (.terminalObserved other)).2 ∧
      (first.handle (.terminalObserved report)).1.Interchangeable
        (second.handle (.terminalObserved other)).1 := by
  rw [handle_terminalObserved halike.first_granted, handle_terminalObserved halike.second_granted,
    hcost]
  by_cases hdone : first.Done
  · rw [if_pos hdone, if_pos (halike.done_iff.mp hdone)]
    exact ⟨rfl, halike⟩
  · rw [if_neg hdone, if_neg fun hother ↦ hdone (halike.done_iff.mpr hother)]
    exact halike.settle _

/-- The same reading. -/
theorem progressObserved (halike : first.Interchangeable second) (progress : Progress) :
    (first.handle (.progressObserved progress)).2 =
        (second.handle (.progressObserved progress)).2 ∧
      (first.handle (.progressObserved progress)).1.Interchangeable
        (second.handle (.progressObserved progress)).1 := by
  obtain ⟨guard, other, hguard, hother, hguards⟩ := halike.guards
  rw [handle_progressObserved hguard, handle_progressObserved hother, ← hguards.nonMonotonic,
    ← hguards.advance, hguards.grant_eq]
  by_cases hrefused : guard.nonMonotonic progress = true
  · simp only [if_pos hrefused]
    exact ⟨trivial, halike⟩
  · simp only [if_neg hrefused]
    exact ⟨trivial, by simp, by simp, by simp [Done], _, _, rfl, rfl, rfl, rfl⟩

/-- One event: the same actions, and interchangeable engines again. -/
theorem handle (halike : first.Interchangeable second) (event : DeliveryEvent) :
    (first.handle event).2 = (second.handle event).2 ∧
      (first.handle event).1.Interchangeable (second.handle event).1 := by
  obtain ⟨guard, other, hguard, hother, hguards⟩ := halike.guards
  cases event with
  | grantIssued grant =>
    rw [handle_grantIssued halike.first_granted, handle_grantIssued halike.second_granted]
    exact ⟨rfl, halike⟩
  | progressObserved progress => exact halike.progressObserved progress
  | terminalObserved report => exact halike.terminalObserved rfl
  | revokeRequested now =>
    rw [handle_revokeRequested halike.first_granted hguard,
      handle_revokeRequested halike.second_granted hother, hguards.grant_eq]
    simp only [halike.done_iff]
    exact ⟨trivial, halike⟩
  | tick now =>
    have hcost := (Progress.totals_eq_iff.mp hguards.totals_eq).2.2
    rw [handle_tick halike.first_granted hguard, handle_tick halike.second_granted hother,
      hguards.grant_eq, hcost]
    simp only [halike.done_iff]
    by_cases hexpired : ¬ second.Done ∧ other.grant.lease.expiresAt ≤ now
    · rw [if_pos hexpired, if_pos hexpired]
      exact halike.settle _
    · rw [if_neg hexpired, if_neg hexpired]
      exact ⟨rfl, halike⟩

/-- Whole runs: the engines stay interchangeable. -/
theorem final (halike : first.Interchangeable second) (events : List DeliveryEvent) :
    (machine.final first events).Interchangeable (machine.final second events) := by
  induction events generalizing first second with
  | nil => exact halike
  | cons event rest ih => exact ih (halike.handle event).2

end Interchangeable

/-! ### The last accepted reading -/

/-- The reading of an event, if the guard accepts it. -/
def acceptedReading (engine : DeliveryEngine) : DeliveryEvent → List Progress
  | .progressObserved progress =>
    match engine.guard with
    | some guard => if guard.nonMonotonic progress then [] else [progress]
    | none => []
  | .grantIssued _ | .terminalObserved _ | .revokeRequested _ | .tick _ => []

/-- The last reading that the guard accepted in a run from `new`, the zero reading if there was
none. -/
def lastAccepted (events : List DeliveryEvent) : Progress :=
  (machine.observe acceptedReading new events).getLast?.getD ⟨0, 0, 0, 0⟩

/-- What an event leaves in the guard: the grant it had, and the reading it had unless another was
accepted. -/
theorem guard_handle {engine : DeliveryEngine} {guard : BudgetGuard}
    (hidle : engine.phase ≠ .idle) (hguard : engine.guard = some guard) (event : DeliveryEvent) :
    (engine.handle event).1.phase ≠ .idle ∧
      (engine.handle event).1.guard =
        some ⟨guard.grant, (engine.acceptedReading event).getLast?.getD guard.last⟩ := by
  have hsettle (finalCostMillis : UInt64) :
      (engine.settleFromTotals finalCostMillis).1.phase ≠ .idle ∧
        (engine.settleFromTotals finalCostMillis).1.guard = some guard := by
    rw [settleFromTotals_of_guard hguard]
    exact ⟨by simp, hguard⟩
  cases event with
  | grantIssued grant =>
    rw [handle_grantIssued hidle]
    exact ⟨hidle, hguard⟩
  | progressObserved progress =>
    rw [handle_progressObserved hguard]
    by_cases hrefused : guard.nonMonotonic progress = true
    · simp [acceptedReading, hguard, hrefused, hidle]
    · simp [acceptedReading, hguard, hrefused]
  | terminalObserved report =>
    rw [handle_terminalObserved hidle]
    split_ifs
    · exact ⟨hidle, hguard⟩
    · exact hsettle _
  | revokeRequested now =>
    rw [handle_revokeRequested hidle hguard]
    exact ⟨hidle, hguard⟩
  | tick now =>
    rw [handle_tick hidle hguard]
    split_ifs
    · exact hsettle _
    · exact ⟨hidle, hguard⟩

/-- The guard of a run that starts with a grant: that grant, and the last reading accepted. -/
theorem guard_final (grant : Grant) (events : List DeliveryEvent) :
    (machine.final new (.grantIssued grant :: events)).phase ≠ .idle ∧
      (machine.final new (.grantIssued grant :: events)).guard =
        some ⟨grant, lastAccepted (.grantIssued grant :: events)⟩ := by
  induction events using List.reverseRecOn with
  | nil => exact ⟨by simp [handle, new], rfl⟩
  | append_singleton before event ih =>
    obtain ⟨hidle, hguard⟩ := ih
    rw [← List.cons_append, Transducer.final_append]
    obtain ⟨hnext, hkept⟩ := guard_handle hidle hguard event
    refine ⟨hnext, hkept.trans ?_⟩
    rw [lastAccepted, lastAccepted, Transducer.observe_append, List.getLast?_append,
      Option.getD_or]
    simp only [Transducer.observe_cons, Transducer.observe_nil, List.append_nil]

/-- What recovery puts into the guard: the grant and the reading as they were journalled. -/
theorem guard_resume (grant : Grant) (last : Progress) :
    (resume grant last).guard = some ⟨grant, last⟩ := by
  simp only [resume, BudgetGuard.apply, BudgetGuard.nonMonotonic_new, Bool.false_eq_true, if_false]
  rfl

/-- A granted engine that has not settled is interchangeable with one recovered from its grant and
any reading with the totals of its guard. -/
theorem interchangeable_resume {engine : DeliveryEngine} {guard : BudgetGuard}
    (hidle : engine.phase ≠ .idle) (hguard : engine.guard = some guard) (hopen : ¬ engine.Done)
    {last : Progress} (htotals : guard.last.totals = last.totals) :
    engine.Interchangeable (resume guard.grant last) := by
  obtain ⟨hlabel, hnot⟩ := (live_resume guard.grant last).phase_ne
  exact ⟨hidle, hlabel, iff_of_false hopen hnot, guard, ⟨guard.grant, last⟩, hguard,
    guard_resume _ _, rfl, htotals⟩

/-- For every run of an engine that starts with a grant and has not settled: the engine recovered
from the grant and the last accepted reading answers every further run of events as the engine
itself does, action by action, and settles at the same event. -/
theorem resume_bisimilar (grant : Grant) (events : List DeliveryEvent)
    (hopen : ¬ (machine.final new (.grantIssued grant :: events)).Done) :
    let engine := machine.final new (.grantIssued grant :: events)
    let resumed := resume grant (lastAccepted (.grantIssued grant :: events))
    (∀ later event, ((machine.final engine later).handle event).2 =
        ((machine.final resumed later).handle event).2) ∧
      ∀ later, (machine.final engine later).Done ↔ (machine.final resumed later).Done := by
  intro engine resumed
  obtain ⟨hidle, hguard⟩ := guard_final grant events
  have halike : engine.Interchangeable resumed := interchangeable_resume hidle hguard hopen rfl
  constructor
  · intro later event
    exact ((halike.final later).handle event).1
  · intro later
    exact (halike.final later).done_iff

/-- A run under the sample grant that was cut after two readings, the second of them refused. -/
theorem resume_bisimilar_after_refusal :
    let cut : List DeliveryEvent :=
      [.progressObserved ⟨0, 30, 300, 30000⟩, .progressObserved ⟨0, 20, 200, 31000⟩]
    let engine := machine.final new (.grantIssued sampleGrant :: cut)
    let resumed := resume sampleGrant ⟨0, 30, 300, 30000⟩
    (∀ later event, ((machine.final engine later).handle event).2 =
        ((machine.final resumed later).handle event).2) ∧
      ∀ later, (machine.final engine later).Done ↔ (machine.final resumed later).Done :=
  resume_bisimilar sampleGrant
    [.progressObserved ⟨0, 30, 300, 30000⟩, .progressObserved ⟨0, 20, 200, 31000⟩]
    (by decide +kernel)

end DeliveryEngine

end Tollgate
