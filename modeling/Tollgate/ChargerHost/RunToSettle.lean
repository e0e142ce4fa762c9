import Tollgate.ChargerHost.Harness

/-!
# Running a session to its end

`run_to_settle` of the conformance suite advances virtual time in steps, with a pump of the device
and a tick of the driver in each, until the session has been settled. A session is over at the first
step at which its window has ended or its reading exhausts a cap, and the price of the whole seconds
up to there is what the loop settles. The end of the window is settled in the same step, since the
device reports it; a cap takes one step more, since the device does not acknowledge its stop
(`runToSettle_eq`).
-/

set_option autoImplicit false
set_option relaxedAutoImplicit false

namespace Tollgate

namespace Harness

/-! ### The loop -/

/-- The last amount settled, if there is one. -/
def settled (log : List Outbound) : Option UInt64 :=
  (log.filterMap fun | .settle _ amountMillis => some amountMillis | _ => none).getLast?

/-- The last amount refunded, if there is one. -/
def refunded (log : List Outbound) : Option UInt64 :=
  (log.filterMap fun | .refund _ amountMillis => some amountMillis | _ => none).getLast?

/-- Advance virtual time until settlement. `none` is a failed assertion, or no settlement after so
many steps. -/
def runToSettle (stepMs : UInt64) : ℕ → Harness → Option (UInt64 × UInt64)
  | 0, _ => none
  | maxSteps + 1, harness => do
    let pumped ← (harness.elapse stepMs).pump
    let ticked ← pumped.tick
    match settled ticked.log, refunded ticked.log with
    | some settle, some refund =>
      if ticked.driver.engine.phase = .done then some (settle, refund) else none
    | _, _ => runToSettle stepMs maxSteps ticked

/-! ### Readings and steps -/

/-- The reading of a session that was acknowledged at its opening. -/
def readingAt (price : PriceVector) (openedAt now : Millis) : Progress :=
  let seconds := Millis.since now openedAt / 1000
  ⟨0, seconds, seconds.saturatingMul price.perSecondMillis, now⟩

/-- Virtual time after so many steps. -/
def stepTime (openedAt : Millis) (stepMs : UInt64) : ℕ → Millis
  | 0 => openedAt
  | steps + 1 => stepTime openedAt stepMs steps + stepMs

/-- A step at which the session is over: its window has ended, or its reading exhausts a cap. -/
def endsAt (grant : Grant) (price : PriceVector) (openedAt : Millis) (stepMs : UInt64)
    (steps : ℕ) : Bool :=
  decide (windowEnd grant openedAt ≤ stepTime openedAt stepMs steps) ||
    (⟨grant, readingAt price openedAt (stepTime openedAt stepMs steps)⟩ :
      BudgetGuard).exhausted.isSome

theorem toNat_stepTime {openedAt : Millis} {stepMs : UInt64} {steps : ℕ}
    (hclock : openedAt.toNat + steps * stepMs.toNat < 2 ^ 64) :
    (stepTime openedAt stepMs steps).toNat = openedAt.toNat + steps * stepMs.toNat := by
  induction steps with
  | zero => simp [stepTime]
  | succ steps ih =>
    rw [Nat.succ_mul] at hclock ⊢
    rw [stepTime, UInt64.toNat_add, ih (by omega)]
    omega

theorem readingAt_mono (price : PriceVector) (openedAt : Millis) {now later : Millis}
    (hlater : now ≤ later) :
    (readingAt price openedAt now).secondsTotal ≤ (readingAt price openedAt later).secondsTotal ∧
      (readingAt price openedAt now).costMillisTotal ≤
        (readingAt price openedAt later).costMillisTotal := by
  have hseconds : (Millis.since now openedAt / 1000).toNat ≤
      (Millis.since later openedAt / 1000).toNat := by
    rw [UInt64.toNat_div, UInt64.toNat_div, Millis.toNat_since, Millis.toNat_since]
    exact Nat.div_le_div_right (Nat.sub_le_sub_right (UInt64.le_iff_toNat_le.mp hlater) _)
  refine ⟨UInt64.le_iff_toNat_le.mpr hseconds, UInt64.le_iff_toNat_le.mpr ?_⟩
  simp only [readingAt, UInt64.toNat_saturatingMul]
  exact min_le_min_right _ (Nat.mul_le_mul_right _ hseconds)

/-- A harness whose session is under way, with nothing but its start in the log. -/
structure Counting (grant : Grant) (price : PriceVector) (openedAt : Millis) (harness : Harness) :
    Prop where
  live : harness.driver.Live grant
  pending : harness.driver.pendingStop = none
  acked : harness.driver.ackedAt = some openedAt
  price_eq : harness.driver.price = price
  kept : ∃ last : Progress, harness.driver.engine.guard = some ⟨grant, last⟩ ∧
    last.unitsTotal = 0 ∧
      last.secondsTotal ≤ (readingAt price openedAt harness.now).secondsTotal ∧
        last.costMillisTotal ≤ (readingAt price openedAt harness.now).costMillisTotal
  window : harness.sim.window = some (openedAt, windowEnd grant openedAt)
  opened : openedAt ≤ harness.now
  quiet : ∃ device endEpochSec, harness.log = [.publishStart device endEpochSec]

section Counting

variable {grant : Grant} {price : PriceVector} {openedAt : Millis} {harness : Harness}

theorem counting_start (device : String) (grant : Grant) (price : PriceVector) (openedAt : Millis) :
    ∃ harness, start device grant price openedAt = some harness ∧
      harness.Counting grant price openedAt ∧ harness.now = openedAt := by
  have hzero : (⟨0, 0, 0, 0⟩ : Progress).secondsTotal ≤
      (readingAt price openedAt openedAt).secondsTotal := UInt64.zero_le
  exact ⟨_, rfl, ⟨⟨DeliveryEngine.live_grantIssued grant, rfl⟩, rfl, rfl, rfl,
    ⟨⟨0, 0, 0, 0⟩, rfl, rfl, hzero, UInt64.zero_le⟩, rfl, UInt64.le_refl _, _, _, rfl⟩, rfl⟩

theorem Counting.synthesize (hcounting : harness.Counting grant price openedAt) (now : Millis) :
    harness.driver.synthesize now = readingAt price openedAt now := by
  rw [ChargerDriver.synthesize, hcounting.acked, hcounting.price_eq]
  rfl

/-- Assumes: the clock does not wrap. -/
theorem Counting.elapse (hcounting : harness.Counting grant price openedAt) {stepMs : UInt64}
    (hclock : harness.now.toNat + stepMs.toNat < 2 ^ 64) :
    (harness.elapse stepMs).Counting grant price openedAt := by
  have hlater : harness.now ≤ harness.now + stepMs := by
    rw [UInt64.le_iff_toNat_le, UInt64.toNat_add]
    omega
  obtain ⟨last, hguard, hunits, hseconds, hcost⟩ := hcounting.kept
  obtain ⟨hmore, hdearer⟩ := readingAt_mono price openedAt hlater
  exact ⟨hcounting.live, hcounting.pending, hcounting.acked, hcounting.price_eq,
    ⟨last, hguard, hunits, UInt64.le_trans hseconds hmore, UInt64.le_trans hcost hdearer⟩,
    hcounting.window, UInt64.le_trans hcounting.opened hlater, hcounting.quiet⟩

/-- A harness whose session has been settled for a final cost. -/
structure Finished (grant : Grant) (cost : UInt64) (harness : Harness) : Prop where
  done : harness.driver.engine.Done
  settled_eq : settled harness.log = some (DeliveryEngine.settlement grant cost)
  refunded_eq : refunded harness.log =
    some (grant.depositMillis - DeliveryEngine.settlement grant cost)

/-- Assumes: a call that settles. It is executed, and the session is finished. -/
theorem finished_of_settled {request : ChargerDriver.Call} {driver : ChargerDriver} {cost : UInt64}
    (hdone : (ChargerDriver.machine.step harness.driver request).1.engine.Done)
    (hpaid : (ChargerDriver.machine.step harness.driver request).2 = (driver.settled cost).2) :
    ∃ next, harness.call request = some next ∧ next.Finished driver.grant cost := by
  refine ⟨_, harness.call_eq request, hdone, ?_, ?_⟩
  · simp [settled, hpaid, ChargerDriver.settled]
  · simp [refunded, hpaid, ChargerDriver.settled]

theorem Finished.tick {cost : UInt64} (hfinished : harness.Finished grant cost) :
    harness.tick = some harness := by
  have hstep : ChargerDriver.machine.step harness.driver (.tick harness.now) =
      (harness.driver, []) := ChargerDriver.tick_of_done hfinished.done harness.now
  rw [Harness.tick, call_eq, hstep]
  simp

/-- Assumes: the window has ended. The device reports it, and the report is settled. -/
theorem Counting.ended (hcounting : harness.Counting grant price openedAt)
    (hended : windowEnd grant openedAt ≤ harness.now) :
    ∃ next, harness.pump = some next ∧
      next.Finished grant (readingAt price openedAt harness.now).costMillisTotal := by
  obtain ⟨last, hguard, -⟩ := hcounting.kept
  have hgrant : harness.driver.grant = grant := hcounting.live.2
  have hpumped : harness.sim.pump harness.now = (MockCharger.new, some "countdown-finished") := by
    simp [MockCharger.pump, hcounting.window, hended, MockCharger.new]
  have hreport := ChargerDriver.step_report hcounting.live (hgrant.symm ▸ hguard) hcounting.pending
    (show (ChargerDriver.Call.handleMessage
      (.done harness.now "countdown-finished".toUTF8.data.toList)).asksAt = some harness.now from
        rfl)
  rw [hcounting.synthesize] at hreport
  have hdone := congrArg (fun called ↦ called.1.engine.phase) hreport
  obtain ⟨next, hnext, hfinished⟩ := @finished_of_settled { harness with sim := MockCharger.new }
    _ _ _ hdone (congrArg Prod.snd hreport)
  refine ⟨next, ?_, hgrant ▸ hfinished⟩
  simp only [Harness.pump, hpumped]
  exact hnext

/-- Assumes: the window has not ended. The device has nothing to report, and a tick takes a reading
and stops the device if it exhausts a cap. -/
theorem Counting.before (hcounting : harness.Counting grant price openedAt)
    (hbefore : ¬ windowEnd grant openedAt ≤ harness.now) :
    harness.pump = some harness ∧
      harness.tick = some { harness with
        driver := harness.driver.observed (readingAt price openedAt harness.now)
        sim :=
          if (⟨grant, readingAt price openedAt harness.now⟩ : BudgetGuard).exhausted.isSome then
            harness.sim.stop
          else harness.sim
        log := harness.log ++
          harness.driver.stopIfExhausted (readingAt price openedAt harness.now) } := by
  obtain ⟨last, hguard, hunits, hseconds, hcost⟩ := hcounting.kept
  have hgrant : harness.driver.grant = grant := hcounting.live.2
  have hlease : ¬ harness.driver.grant.lease.expiresAt ≤ harness.now := by
    rw [hgrant]
    exact fun hexpired ↦ hbefore (windowEnd_le hcounting.opened hexpired)
  have hkept : (⟨harness.driver.grant, last⟩ : BudgetGuard).nonMonotonic
      (harness.driver.synthesize harness.now) = false := by
    rw [hcounting.synthesize]
    simp only [BudgetGuard.nonMonotonic, hunits, Bool.or_eq_false_iff, decide_eq_false_iff_not,
      UInt64.not_lt]
    exact ⟨⟨UInt64.zero_le, hseconds⟩, hcost⟩
  have htick := ChargerDriver.tick_reading hcounting.live (hgrant.symm ▸ hguard) hcounting.pending
    hkept
  simp only [if_neg hlease, hcounting.synthesize] at htick
  constructor
  · have hpumped : harness.sim.pump harness.now = (harness.sim, none) := by
      simp [MockCharger.pump, hcounting.window, hbefore]
    simp only [Harness.pump, hpumped]
  · rw [Harness.tick, call_eq, show ChargerDriver.machine.step harness.driver (.tick harness.now) =
      harness.driver.tick harness.now from rfl, htick]
    simp only [ChargerDriver.stopIfExhausted, hgrant]
    split_ifs <;> simp_all [Outbound.stops]

/-- Assumes: a step whose tick settles nothing. The loop goes on. -/
theorem runToSettle_of_quiet {stepMs : UInt64} {maxSteps : ℕ} {pumped ticked : Harness}
    (hpumped : (harness.elapse stepMs).pump = some pumped) (hticked : pumped.tick = some ticked)
    (hquiet : settled ticked.log = none) :
    runToSettle stepMs (maxSteps + 1) harness = runToSettle stepMs maxSteps ticked := by
  simp [runToSettle, hpumped, hticked, hquiet]

/-- Assumes: a step whose tick leaves the session finished. The loop returns what was settled. -/
theorem runToSettle_of_finished {stepMs cost : UInt64} {maxSteps : ℕ} {pumped ticked : Harness}
    (hpumped : (harness.elapse stepMs).pump = some pumped) (hticked : pumped.tick = some ticked)
    (hfinished : ticked.Finished grant cost) :
    runToSettle stepMs (maxSteps + 1) harness =
      some (DeliveryEngine.settlement grant cost,
        grant.depositMillis - DeliveryEngine.settlement grant cost) := by
  have hdone : ticked.driver.engine.phase = .done := hfinished.done
  simp [runToSettle, hpumped, hticked, hfinished.settled_eq, hfinished.refunded_eq, hdone]

/-- Assumes: the window has not ended and the reading exhausts no cap. A step goes on counting. -/
theorem Counting.goes_on (hcounting : harness.Counting grant price openedAt)
    (hbefore : ¬ windowEnd grant openedAt ≤ harness.now)
    (hopen : ¬ (⟨grant, readingAt price openedAt harness.now⟩ :
      BudgetGuard).exhausted.isSome = true) :
    ∃ next, harness.tick = some next ∧ next.Counting grant price openedAt ∧
      next.now = harness.now := by
  have hgrant : harness.driver.grant = grant := hcounting.live.2
  have hopen' : ¬ (⟨harness.driver.grant, readingAt price openedAt harness.now⟩ :
      BudgetGuard).exhausted.isSome = true := hgrant.symm ▸ hopen
  obtain ⟨device, endEpochSec, hlog⟩ := hcounting.quiet
  refine ⟨_, (hcounting.before hbefore).2, ⟨⟨⟨Or.inr rfl, _, rfl, hgrant⟩, hgrant⟩, ?_,
    hcounting.acked, hcounting.price_eq, ?_, ?_, hcounting.opened, device, endEpochSec, ?_⟩, rfl⟩
  · simp only [ChargerDriver.observed, if_neg hopen']
  · refine ⟨readingAt price openedAt harness.now, ?_, rfl, UInt64.le_refl _, UInt64.le_refl _⟩
    simp only [ChargerDriver.observed, hgrant]
  · simp only [if_neg hopen, hcounting.window]
  · simp only [ChargerDriver.stopIfExhausted, if_neg hopen', hlog, List.append_nil]

/-- Assumes: the window has not ended and the reading exhausts a cap. The device is stopped, and one
step later the reading is settled. -/
theorem Counting.stops (hcounting : harness.Counting grant price openedAt)
    (hbefore : ¬ windowEnd grant openedAt ≤ harness.now)
    (hexhausted : (⟨grant, readingAt price openedAt harness.now⟩ :
      BudgetGuard).exhausted.isSome = true) (stepMs : UInt64) :
    ∃ next, harness.tick = some next ∧ settled next.log = none ∧
      (next.elapse stepMs).pump = some (next.elapse stepMs) ∧
      ∃ last, (next.elapse stepMs).tick = some last ∧
        last.Finished grant (readingAt price openedAt harness.now).costMillisTotal := by
  have hgrant : harness.driver.grant = grant := hcounting.live.2
  have hexhausted' : (⟨harness.driver.grant, readingAt price openedAt harness.now⟩ :
      BudgetGuard).exhausted.isSome = true := hgrant.symm ▸ hexhausted
  obtain ⟨device, endEpochSec, hlog⟩ := hcounting.quiet
  refine ⟨_, (hcounting.before hbefore).2, ?_, ?_, ?_⟩
  · simp [settled, hlog, ChargerDriver.stopIfExhausted, if_pos hexhausted']
  · simp only [Harness.pump, Harness.elapse, if_pos hexhausted, MockCharger.stop, MockCharger.pump]
  · have hlive : (harness.driver.observed (readingAt price openedAt harness.now)).Live grant :=
      ⟨⟨Or.inr rfl, _, rfl, hgrant⟩, hgrant⟩
    have hpending : (harness.driver.observed
        (readingAt price openedAt harness.now)).pendingStop.isSome = true := by
      simp only [ChargerDriver.observed, if_pos hexhausted', Option.isSome_some]
    obtain ⟨hdone, -, hpaid⟩ := ChargerDriver.step_of_stopped hlive rfl
      (show (ChargerDriver.Call.tick (harness.now + stepMs)).asksAt.isSome = true from rfl) hpending
    obtain ⟨last, hlast, hfinished⟩ := @finished_of_settled
      { harness with
        driver := harness.driver.observed (readingAt price openedAt harness.now)
        sim :=
          if (⟨grant, readingAt price openedAt harness.now⟩ : BudgetGuard).exhausted.isSome then
            harness.sim.stop
          else harness.sim
        now := harness.now + stepMs
        log := harness.log ++
          harness.driver.stopIfExhausted (readingAt price openedAt harness.now) }
      (.tick (harness.now + stepMs)) _ _ hdone hpaid
    exact ⟨last, hlast, hgrant ▸ hfinished⟩

/-- Assumes: a harness that has been counting for some steps, and a clock that does not wrap. The
loop settles the first step at which the session is over, and takes one step more for a cap. -/
theorem Counting.runToSettle_find {stepMs : UInt64} (maxSteps steps : ℕ)
    (hcounting : harness.Counting grant price openedAt)
    (hnow : harness.now = stepTime openedAt stepMs steps)
    (hclock : openedAt.toNat + (steps + maxSteps) * stepMs.toNat < 2 ^ 64) :
    runToSettle stepMs maxSteps harness =
      ((List.range' (steps + 1) maxSteps).find? (endsAt grant price openedAt stepMs)).bind
        fun last ↦
          if windowEnd grant openedAt ≤ stepTime openedAt stepMs last ∨ last < steps + maxSteps then
            let cost := (readingAt price openedAt (stepTime openedAt stepMs last)).costMillisTotal
            some (DeliveryEngine.settlement grant cost,
              grant.depositMillis - DeliveryEngine.settlement grant cost)
          else none := by
  induction maxSteps generalizing steps harness with
  | zero => rfl
  | succ maxSteps ih =>
    have hbound : openedAt.toNat + (steps + 1) * stepMs.toNat < 2 ^ 64 := by
      have := Nat.mul_le_mul_right stepMs.toNat (show steps + 1 ≤ steps + (maxSteps + 1) by omega)
      omega
    have hstep : harness.now.toNat + stepMs.toNat < 2 ^ 64 := by
      have hprevious := hbound
      rw [Nat.succ_mul] at hprevious
      rw [hnow, toNat_stepTime (by omega)]
      omega
    have helapsed := hcounting.elapse hstep
    have htime : (harness.elapse stepMs).now = stepTime openedAt stepMs (steps + 1) := by
      rw [Harness.elapse, hnow, stepTime]
    rw [List.range'_succ]
    by_cases hended : windowEnd grant openedAt ≤ stepTime openedAt stepMs (steps + 1)
    · obtain ⟨next, hpumped, hfinished⟩ := helapsed.ended (htime ▸ hended)
      rw [runToSettle_of_finished hpumped hfinished.tick hfinished,
        List.find?_cons_of_pos (by simp [endsAt, hended]), Option.bind_some,
        if_pos (Or.inl hended), htime]
    · obtain ⟨hpumped, -⟩ := helapsed.before (htime ▸ hended)
      by_cases hexhausted : (⟨grant,
          readingAt price openedAt (stepTime openedAt stepMs (steps + 1))⟩ :
            BudgetGuard).exhausted.isSome = true
      · -- The stop is settled by the next step, if there is one.
        obtain ⟨next, hticked, hquiet, hidle, last, hlast, hfinished⟩ :=
          helapsed.stops (htime ▸ hended) (htime ▸ hexhausted) stepMs
        rw [runToSettle_of_quiet hpumped hticked hquiet,
          List.find?_cons_of_pos (by simp [endsAt, hexhausted]), Option.bind_some]
        cases maxSteps with
        | zero => rw [if_neg (not_or.mpr ⟨hended, by omega⟩), runToSettle]
        | succ maxSteps =>
          rw [runToSettle_of_finished hidle hlast hfinished, if_pos (Or.inr (by omega)), htime]
      · obtain ⟨next, hticked, hnext, hsame⟩ :=
          helapsed.goes_on (htime ▸ hended) (htime ▸ hexhausted)
        obtain ⟨device, endEpochSec, hlog⟩ := hnext.quiet
        rw [runToSettle_of_quiet hpumped hticked (by simp [settled, hlog]),
          ih (steps + 1) hnext (hsame.trans htime)
            (by rw [Nat.add_right_comm, Nat.add_assoc]; exact hclock),
          List.find?_cons_of_neg (by simp [endsAt, hended, hexhausted])]
        simp only [show steps + 1 + maxSteps = steps + (maxSteps + 1) by omega]

end Counting

/-- For every grant, price and opening, every step and every number of steps: the loop settles the
price of the whole seconds up to the first step at which the window has ended or a cap is exhausted,
clamped as the engine clamps it, and refunds the rest. For a cap it takes one step more, and without
such a step or with none to take it settles nothing. Assumes: the clock does not wrap. -/
theorem runToSettle_eq (device : String) (grant : Grant) (price : PriceVector) (openedAt : Millis)
    (stepMs : UInt64) (maxSteps : ℕ) (hclock : openedAt.toNat + maxSteps * stepMs.toNat < 2 ^ 64) :
    ((start device grant price openedAt).bind fun harness ↦ runToSettle stepMs maxSteps harness) =
      ((List.range' 1 maxSteps).find? (endsAt grant price openedAt stepMs)).bind fun last ↦
        if windowEnd grant openedAt ≤ stepTime openedAt stepMs last ∨ last < maxSteps then
          let cost := (readingAt price openedAt (stepTime openedAt stepMs last)).costMillisTotal
          some (DeliveryEngine.settlement grant cost,
            grant.depositMillis - DeliveryEngine.settlement grant cost)
        else none := by
  obtain ⟨opened, hopened, hcounting, hnow⟩ := counting_start device grant price openedAt
  rw [hopened, Option.bind_some, hcounting.runToSettle_find maxSteps 0 hnow (by simpa using hclock)]
  simp only [Nat.zero_add]

/-- A window of a minute that runs out, and a cap of half a minute within it. -/
theorem runToSettle_of_window_and_cap :
    ((start "atomB" (timeMoneyGrant 7 12000 600 12000 1060000) ⟨100⟩ 1000000).bind fun harness ↦
        runToSettle 1000 200 harness) = some (6000, 6000) ∧
      ((start "atomB" (timeMoneyGrant 7 12000 30 12000 1060000) ⟨100⟩ 1000000).bind fun harness ↦
        runToSettle 1000 200 harness) = some (3000, 9000) :=
  ⟨(runToSettle_eq "atomB" (timeMoneyGrant 7 12000 600 12000 1060000) ⟨100⟩ 1000000 1000 200
      (by decide)).trans (by decide +kernel),
    (runToSettle_eq "atomB" (timeMoneyGrant 7 12000 30 12000 1060000) ⟨100⟩ 1000000 1000 200
      (by decide)).trans (by decide +kernel)⟩

end Harness

end Tollgate
