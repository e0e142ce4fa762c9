import Tollgate.ChargerHost.Settlement
import Tollgate.Core.Recovery

/-!
# What a call does to a driver

A charger driver that has not settled answers each event of its engine in one way, given here as an
equation for each event that it dispatches: a report settles, a tick settles from the expiry of the
lease on, a reading is refused or kept and may leave a stop pending, a revocation leaves one
pending. The calls of an external driver are given by equations too: a tick polls and settles from
the expiry of the lease on, a stop settles. The results about runs rest on these equations and on
the frame of a call, and never look into the translation of the engine's actions again.
-/

set_option autoImplicit false
set_option relaxedAutoImplicit false

namespace Tollgate

namespace ChargerDriver

/-! ### Readings -/

/-- When a call was made. -/
def Call.time : Call → Millis
  | .handleMessage (.grantAck receivedAt) => receivedAt
  | .handleMessage (.done receivedAt _) => receivedAt
  | .handleMessage (.aborted receivedAt _) => receivedAt
  | .tick now => now
  | .revoke now => now

/-- The calls come in the order of their times, from the opening on. -/
def InOrder (openedAt : Millis) (calls : List Call) : Prop :=
  (openedAt :: calls.map Call.time).Pairwise (· ≤ ·)

instance (openedAt : Millis) (calls : List Call) : Decidable (InOrder openedAt calls) :=
  inferInstanceAs (Decidable (List.Pairwise _ _))

/-- The time at which a call asks for a reading. -/
def Call.asksAt : Call → Option Millis
  | .handleMessage (.done receivedAt _) => some receivedAt
  | .handleMessage (.aborted receivedAt _) => some receivedAt
  | .tick now => some now
  | .handleMessage (.grantAck _) | .revoke _ => none

/-- When a call takes a reading of a delivery under way. A settled driver takes none that counts,
and a pending stop has frozen the journal. -/
def readingTime (driver : ChargerDriver) (call : Call) : Option Millis :=
  if driver.engine.Done ∨ driver.pendingStop.isSome = true then none else call.asksAt

/-- A reading is its whole seconds at the price. -/
theorem synthesize_eq (driver : ChargerDriver) (now : Millis) :
    driver.synthesize now =
      ⟨0, (driver.synthesize now).secondsTotal,
        (driver.synthesize now).secondsTotal.saturatingMul driver.price.perSecondMillis, now⟩ := by
  unfold synthesize
  cases driver.ackedAt with
  | some acked => rfl
  | none => rw [UInt64.zero_saturatingMul]

/-! ### Runs -/

/-- A driver as a run from `open` leaves it: with the parameters it was opened with, and live under
its grant or settled. -/
structure Running (device : String) (grant : Grant) (price : PriceVector) (driver : ChargerDriver) :
    Prop where
  device_eq : driver.device = device
  price_eq : driver.price = price
  live_or_done : driver.Live grant ∨ driver.engine.Done

theorem running_final (device : String) (grant : Grant) (price : PriceVector) (openedAt : Millis)
    (calls : List Call) :
    (machine.final (ChargerDriver.open device grant price openedAt).1 calls).Running device grant
      price := by
  refine machine.final_invariant (Running device grant price) ?_
    ⟨rfl, rfl, Or.inl ⟨DeliveryEngine.live_grantIssued grant, rfl⟩⟩ calls
  intro driver call hrunning
  obtain ⟨hdevice, hprice, -⟩ := driver.step_frame call
  refine ⟨hdevice.trans hrunning.device_eq, hprice.trans hrunning.price_eq, ?_⟩
  rcases hrunning.live_or_done with hlive | hdone
  · exact (step_of_live hlive call).imp And.left And.left
  · exact Or.inr (step_of_done hdone call).1

/-! ### The events of a live driver -/

section Live

variable {driver : ChargerDriver}

/-- The driver after it has settled for a final cost, and the two payouts. -/
def settled (driver : ChargerDriver) (finalCostMillis : UInt64) : ChargerDriver × List Outbound :=
  ({ driver with engine := { driver.engine with phase := .done } },
    [.settle driver.grant.nonce (DeliveryEngine.settlement driver.grant finalCostMillis),
      .refund driver.grant.nonce
        (driver.grant.depositMillis - DeliveryEngine.settlement driver.grant finalCostMillis)])

theorem Live.exists_guard {grant : Grant} (hlive : driver.Live grant) :
    ∃ last, driver.engine.guard = some ⟨driver.grant, last⟩ := by
  obtain ⟨⟨-, guard, hguard, hgrant⟩, hsame⟩ := hlive
  refine ⟨guard.last, ?_⟩
  rw [hguard, hsame, ← hgrant]

variable {grant : Grant} {last : Progress}

theorem dispatch_terminalObserved (hlive : driver.Live grant)
    (hguard : driver.engine.guard = some ⟨driver.grant, last⟩) (report : TerminalReport) :
    driver.dispatch (.terminalObserved report) = driver.settled report.costMillisTotal := by
  obtain ⟨hidle, hopen⟩ := hlive.1.phase_ne
  have hnot : ¬ driver.engine.Done := hopen
  simp only [dispatch, DeliveryEngine.handle_terminalObserved hidle, if_neg hnot,
    DeliveryEngine.settleFromTotals_of_guard hguard]
  rfl

theorem dispatch_tick (hlive : driver.Live grant)
    (hguard : driver.engine.guard = some ⟨driver.grant, last⟩) (now : Millis) :
    driver.dispatch (.tick now) =
      if driver.grant.lease.expiresAt ≤ now then driver.settled last.costMillisTotal
      else (driver, []) := by
  obtain ⟨hidle, hopen⟩ := hlive.1.phase_ne
  have hnot : ¬ driver.engine.Done := hopen
  simp only [dispatch, DeliveryEngine.handle_tick hidle hguard, hnot, not_false_eq_true, true_and]
  by_cases hexpired : driver.grant.lease.expiresAt ≤ now
  · simp only [if_pos hexpired, DeliveryEngine.settleFromTotals_of_guard hguard]
    rfl
  · simp only [if_neg hexpired]
    rfl

/-- A reading that went backwards changes nothing. -/
theorem dispatch_progress_refused (hguard : driver.engine.guard = some ⟨driver.grant, last⟩)
    {progress : Progress}
    (hrefused : (⟨driver.grant, last⟩ : BudgetGuard).nonMonotonic progress = true) :
    driver.dispatch (.progressObserved progress) = (driver, []) := by
  simp only [dispatch, DeliveryEngine.handle_progressObserved hguard, if_pos hrefused]
  rfl

/-- A reading that did not is kept by the guard; if a cap is exhausted the device is stopped. -/
theorem dispatch_progress_kept (hguard : driver.engine.guard = some ⟨driver.grant, last⟩)
    {progress : Progress}
    (hkept : (⟨driver.grant, last⟩ : BudgetGuard).nonMonotonic progress = false) :
    driver.dispatch (.progressObserved progress) =
      if (⟨driver.grant, progress⟩ : BudgetGuard).exhausted.isSome then
        ({ driver with
            engine := ⟨.delivering, some ⟨driver.grant, progress⟩⟩
            pendingStop := driver.pendingStop.or (some driver.stopReason) },
          [.publishStop driver.device])
      else ({ driver with engine := ⟨.delivering, some ⟨driver.grant, progress⟩⟩ }, []) := by
  simp only [dispatch, DeliveryEngine.handle_progressObserved hguard, hkept, Bool.false_eq_true,
    if_false]
  by_cases hexhausted : (⟨driver.grant, progress⟩ : BudgetGuard).exhausted.isSome = true
  · simp only [if_pos hexhausted, translate]
    cases hpending : driver.pendingStop <;> rfl
  · simp only [if_neg hexhausted]
    rfl

theorem revoke_eq (hlive : driver.Live grant)
    (hguard : driver.engine.guard = some ⟨driver.grant, last⟩) (now : Millis) :
    driver.revoke now =
      ({ driver with pendingStop := some .revoked }, [.publishStop driver.device]) := by
  obtain ⟨hidle, hopen⟩ := hlive.1.phase_ne
  have hnot : ¬ driver.engine.Done := hopen
  simp only [revoke, dispatch, DeliveryEngine.handle_revokeRequested hidle hguard, if_neg hnot]
  rfl

/-! ### The calls on a live driver -/

/-- While a stop is pending, a tick and a report of the device settle at the journal. -/
theorem step_of_stopped (hlive : driver.Live grant)
    (hguard : driver.engine.guard = some ⟨driver.grant, last⟩) {call : Call}
    (hasks : call.asksAt.isSome = true) (hpending : driver.pendingStop.isSome = true) :
    (machine.step driver call).1.engine.Done ∧ (machine.step driver call).1.last = driver.last ∧
      (machine.step driver call).2 = (driver.settled driver.last.costMillisTotal).2 := by
  have hjournal (now : Millis) : driver.journalUnlessStopped now = driver := by
    rw [journalUnlessStopped, if_neg (by simpa [Option.isSome_iff_ne_none] using hpending)]
  cases call with
  | handleMessage inbound =>
    cases inbound with
    | grantAck receivedAt => exact absurd hasks (by simp [Call.asksAt])
    | done receivedAt raw =>
      simp only [machine, handleMessage, hjournal, dispatch_terminalObserved hlive hguard]
      exact ⟨rfl, rfl, rfl⟩
    | aborted receivedAt raw =>
      simp only [machine, handleMessage, hjournal, dispatch_terminalObserved hlive hguard]
      exact ⟨rfl, rfl, rfl⟩
  | tick now =>
    obtain ⟨reason, hreason⟩ := Option.isSome_iff_exists.mp hpending
    simp only [machine, tick_of_pending hlive.1.phase_ne.2 hreason]
    rw [@dispatch_terminalObserved { driver with pendingStop := none } grant last hlive hguard]
    exact ⟨rfl, rfl, rfl⟩
  | revoke now => exact absurd hasks (by simp [Call.asksAt])

/-- A report of the device with no stop pending settles at its own reading. -/
theorem step_report (hlive : driver.Live grant)
    (hguard : driver.engine.guard = some ⟨driver.grant, last⟩)
    (hpending : driver.pendingStop = none)
    {inbound : Inbound} {now : Millis} (hasks : (Call.handleMessage inbound).asksAt = some now) :
    machine.step driver (.handleMessage inbound) =
      { driver with last := driver.synthesize now }.settled
        (driver.synthesize now).costMillisTotal := by
  have hjournal (reportedAt : Millis) : driver.journalUnlessStopped reportedAt =
      { driver with last := driver.synthesize reportedAt } := by
    rw [journalUnlessStopped, if_pos (by rw [hpending]; rfl)]
  cases inbound with
  | grantAck receivedAt => exact absurd hasks (by simp [Call.asksAt])
  | done receivedAt raw =>
    obtain rfl : receivedAt = now := Option.some.inj hasks
    simp only [machine, handleMessage, hjournal]
    exact @dispatch_terminalObserved { driver with last := driver.synthesize receivedAt } grant last
      hlive hguard _
  | aborted receivedAt raw =>
    obtain rfl : receivedAt = now := Option.some.inj hasks
    simp only [machine, handleMessage, hjournal]
    exact @dispatch_terminalObserved { driver with last := driver.synthesize receivedAt } grant last
      hlive hguard _

/-- A tick whose reading went backwards: the driver journals it all the same, and the engine settles
at the reading it kept if the lease has expired. -/
theorem tick_refused (hlive : driver.Live grant)
    (hguard : driver.engine.guard = some ⟨driver.grant, last⟩)
    (hpending : driver.pendingStop = none)
    {now : Millis}
    (hrefused : (⟨driver.grant, last⟩ : BudgetGuard).nonMonotonic (driver.synthesize now) = true) :
    driver.tick now =
      if driver.grant.lease.expiresAt ≤ now then
        { driver with last := driver.synthesize now }.settled last.costMillisTotal
      else ({ driver with last := driver.synthesize now }, []) := by
  rw [tick_of_reading hlive.1.phase_ne.2 hpending,
    @dispatch_progress_refused { driver with last := driver.synthesize now } last hguard _ hrefused,
    @dispatch_tick { driver with last := driver.synthesize now } grant last hlive hguard]
  rfl

/-- The driver after a reading that the engine kept: if a cap is exhausted its stop is pending. -/
def observed (driver : ChargerDriver) (reading : Progress) : ChargerDriver :=
  { driver with
    engine := ⟨.delivering, some ⟨driver.grant, reading⟩⟩
    last := reading
    pendingStop :=
      if (⟨driver.grant, reading⟩ : BudgetGuard).exhausted.isSome then
        some ({ driver with last := reading } : ChargerDriver).stopReason
      else none }

/-- A tick whose reading the engine keeps: the device is stopped if a cap is exhausted, and the
reading is settled if the lease has expired. -/
theorem tick_kept (hlive : driver.Live grant)
    (hguard : driver.engine.guard = some ⟨driver.grant, last⟩)
    (hpending : driver.pendingStop = none)
    {now : Millis}
    (hkept : (⟨driver.grant, last⟩ : BudgetGuard).nonMonotonic (driver.synthesize now) = false) :
    ∃ stop, (∀ command ∈ stop, command = .publishStop driver.device) ∧
      driver.tick now =
        if driver.grant.lease.expiresAt ≤ now then
          (((driver.observed (driver.synthesize now)).settled
              (driver.synthesize now).costMillisTotal).1,
            stop ++ ((driver.observed (driver.synthesize now)).settled
              (driver.synthesize now).costMillisTotal).2)
        else (driver.observed (driver.synthesize now), stop) := by
  have hlast : (driver.observed (driver.synthesize now)).Live grant :=
    ⟨⟨Or.inr rfl, _, rfl, hlive.2⟩, hlive.2⟩
  have hdispatch : ∃ stop, (∀ command ∈ stop, command = .publishStop driver.device) ∧
      { driver with last := driver.synthesize now }.dispatch
        (.progressObserved (driver.synthesize now)) =
          (driver.observed (driver.synthesize now), stop) := by
    rw [@dispatch_progress_kept { driver with last := driver.synthesize now } last hguard _ hkept]
    by_cases hexhausted : (⟨driver.grant, driver.synthesize now⟩ : BudgetGuard).exhausted.isSome
    · refine ⟨[.publishStop driver.device], by simp, ?_⟩
      simp only [observed, if_pos hexhausted, hpending, Option.none_or]
    · refine ⟨[], by simp, ?_⟩
      simp only [observed, if_neg hexhausted, hpending]
  obtain ⟨stop, hstop, hobserved⟩ := hdispatch
  refine ⟨stop, hstop, ?_⟩
  rw [tick_of_reading hlive.1.phase_ne.2 hpending, hobserved, dispatch_tick hlast rfl]
  by_cases hexpired : driver.grant.lease.expiresAt ≤ now
  · rw [if_pos hexpired,
      if_pos (show (driver.observed _).grant.lease.expiresAt ≤ now from hexpired)]
  · rw [if_neg hexpired,
      if_neg (show ¬ (driver.observed _).grant.lease.expiresAt ≤ now from hexpired),
      List.append_nil]

end Live

end ChargerDriver

/-! ### The calls on a live external driver -/

namespace ExternalDriver

/-- The two payouts for a final cost. -/
def payoutsFor (grant : Grant) (finalCostMillis : UInt64) : List ExternalAction :=
  [.settle grant.nonce (DeliveryEngine.settlement grant finalCostMillis),
    .refund grant.nonce (grant.depositMillis - DeliveryEngine.settlement grant finalCostMillis)]

variable {Provider : Type} {port : ExternalProviderPort Provider} {driver : ExternalDriver}
  {provider : Provider} {grant : Grant} {last : Progress}

theorem Live.exists_guard (hlive : Live grant (driver, provider)) :
    ∃ last, driver.engine.guard = some ⟨driver.grant, last⟩ := by
  obtain ⟨⟨-, guard, hguard, hgrant⟩, hsame⟩ := hlive
  refine ⟨guard.last, ?_⟩
  rw [hguard, show driver.grant = grant from hsame, ← hgrant]

theorem tick_of_done (hdone : driver.engine.Done) (now : Millis) :
    driver.tick port provider now = ((driver, provider), []) := by
  have hphase : driver.engine.phase = .done := hdone
  rw [tick, if_pos hphase]

theorem stop_of_done (hdone : driver.engine.Done) (now : Millis) :
    driver.stop port provider now = ((driver, provider), []) := by
  have hphase : driver.engine.phase = .done := hdone
  rw [stop, if_pos hphase]

/-- The lease, for an engine with a given guard: from its expiry on a tick settles. -/
theorem handle_lease {engine : DeliveryEngine} (hidle : engine.phase ≠ .idle)
    (hopen : ¬ engine.Done) {guard : BudgetGuard} (hguard : engine.guard = some guard)
    (now : Millis) :
    (engine.handle (.tick now)).1 =
        (if guard.grant.lease.expiresAt ≤ now then { engine with phase := .done } else engine) ∧
      translate (engine.handle (.tick now)).2 =
        if guard.grant.lease.expiresAt ≤ now then
          payoutsFor guard.grant guard.last.costMillisTotal
        else [] := by
  rw [DeliveryEngine.handle_tick hidle hguard]
  by_cases hexpired : guard.grant.lease.expiresAt ≤ now
  · rw [if_pos ⟨hopen, hexpired⟩, if_pos hexpired, if_pos hexpired,
      DeliveryEngine.settleFromTotals_of_guard hguard]
    exact ⟨rfl, rfl⟩
  · rw [if_neg fun hboth ↦ hexpired hboth.2, if_neg hexpired, if_neg hexpired]
    exact ⟨rfl, rfl⟩

/-- A tick on a live driver, in three parts: the poll becomes the journal whatever the guard makes
of it, the guard keeps the poll unless it went backwards, and nothing but the expiry of the lease
settles. -/
theorem tick_eq (hlive : Live grant (driver, provider))
    (hguard : driver.engine.guard = some ⟨driver.grant, last⟩) (now : Millis) :
    let reading := (driver.polled port provider now).1
    let kept : Progress :=
      if (⟨driver.grant, last⟩ : BudgetGuard).nonMonotonic reading then last else reading
    ∃ phase, (phase = .granted ∨ phase = .delivering) ∧
      driver.tick port provider now =
        (({ driver with
              last := reading
              engine := ⟨if driver.grant.lease.expiresAt ≤ now then .done else phase,
                some ⟨driver.grant, kept⟩⟩ },
            (driver.polled port provider now).2),
          if driver.grant.lease.expiresAt ≤ now then
            payoutsFor driver.grant kept.costMillisTotal
          else []) := by
  intro reading kept
  obtain ⟨hphase, -⟩ := hlive.1
  have hopen : ¬ driver.engine.phase = .done := hlive.1.phase_ne.2
  have hobserved : ∃ phase, (phase = .granted ∨ phase = .delivering) ∧
      (driver.engine.handle (.progressObserved reading)).1 =
        ⟨phase, some ⟨driver.grant, kept⟩⟩ ∧
      translate (driver.engine.handle (.progressObserved reading)).2 = [] := by
    rw [DeliveryEngine.handle_progressObserved hguard]
    by_cases hrefused : (⟨driver.grant, last⟩ : BudgetGuard).nonMonotonic reading = true
    · refine ⟨driver.engine.phase, hphase, ?_, ?_⟩
      · simp only [kept, if_pos hrefused, ← hguard]
      · rw [if_pos hrefused]
        rfl
    · refine ⟨.delivering, Or.inr rfl, ?_, ?_⟩
      · simp only [kept, if_neg hrefused]
      · rw [if_neg hrefused]
        split_ifs <;> rfl
  obtain ⟨phase, hlabel, hengine, hsilent⟩ := hobserved
  have hnot : phase ≠ .idle ∧ phase ≠ .done := by
    rcases hlabel with rfl | rfl <;> simp
  obtain ⟨hnext, hpays⟩ := @handle_lease ⟨phase, some ⟨driver.grant, kept⟩⟩ hnot.1 hnot.2 _ rfl now
  refine ⟨phase, hlabel, ?_⟩
  simp only [tick, if_neg hopen, show (driver.polled port provider now).1 = reading from rfl,
    hengine, hsilent, hnext, hpays, List.nil_append]
  by_cases hexpired : driver.grant.lease.expiresAt ≤ now
  · simp only [if_pos hexpired]
  · simp only [if_neg hexpired]

/-- A stop on a live driver settles at the receipt, if there is a session to stop. -/
theorem stop_eq (hlive : Live grant (driver, provider))
    (hguard : driver.engine.guard = some ⟨driver.grant, last⟩) (now : Millis) :
    driver.stop port provider now =
      (({ driver with session := none, engine := { driver.engine with phase := .done } },
          (driver.receipt port provider).2),
        payoutsFor driver.grant (driver.receipt port provider).1.1) := by
  obtain ⟨hidle, hopen⟩ := hlive.1.phase_ne
  have hnot : ¬ driver.engine.Done := hopen
  simp only [stop, if_neg (show ¬ driver.engine.phase = .done from hopen),
    DeliveryEngine.handle_terminalObserved hidle, if_neg hnot,
    DeliveryEngine.settleFromTotals_of_guard hguard]
  rfl

end ExternalDriver

end Tollgate
