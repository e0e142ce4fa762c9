import Tollgate.ChargerHost.Calls

/-!
# The time cap and the bill

A grant may cap the seconds of a delivery. The driver learns of the time only from its ticks and
from the device's reports, and what it settles on is the reading it took then: a stop for the time
cap freezes the journal at the reading that exhausted the cap, and a report is settled at its own
reading. Money is clamped at settlement and time is not. So a bill stays within the price of the
authorised seconds exactly when no reading beyond them is ever settled, or the deposit or the money
cap holds the bill down anyway (`billsWithin_iff`).
-/

set_option autoImplicit false
set_option relaxedAutoImplicit false

namespace Tollgate

namespace ChargerDriver

/-! ### The promise and its condition -/

/-- Every settlement of a run from `open` is within the price of the authorised seconds. -/
def BillsWithin (limit : UInt64) (device : String) (grant : Grant) (price : PriceVector)
    (openedAt : Millis) (calls : List Call) : Prop :=
  ∀ nonce amountMillis,
    .settle nonce amountMillis ∈
        machine.outputs (ChargerDriver.open device grant price openedAt).1 calls →
      amountMillis.toNat ≤ limit.toNat * price.perSecondMillis.toNat

/-- The deposit or the money cap is no larger than an amount, so no settlement is. -/
def Clamped (grant : Grant) (amount : ℕ) : Prop :=
  grant.depositMillis.toNat ≤ amount ∨
    (grant.caps.maxCostMillis.any fun cap ↦ cap.toNat ≤ amount) = true

/-- A call reads more seconds than are authorised off a delivery under way that is not free. -/
def Overruns (limit : UInt64) (driver : ChargerDriver) (call : Call) : Prop :=
  driver.price.perSecondMillis ≠ 0 ∧
    ((driver.readingTime call).any fun now ↦ limit < (driver.synthesize now).secondsTotal) = true

instance (limit : UInt64) (driver : ChargerDriver) : DecidablePred (driver.Overruns limit) :=
  fun _ ↦ inferInstanceAs (Decidable (_ ∧ _))

/-- No reading beyond the limit is settled: the call that takes it does not settle, and neither a
tick nor a report of the device follows. -/
def OverrunsUnbilled (limit : UInt64) : ChargerDriver → List Call → Prop
  | _, [] => True
  | driver, call :: rest =>
    (driver.Overruns limit call →
        ¬ driver.MustSettle call ∧ ∀ next ∈ rest, next.asksAt = none) ∧
      OverrunsUnbilled limit (machine.step driver call).1 rest

instance decidableOverrunsUnbilled (limit : UInt64) (driver : ChargerDriver) :
    (calls : List Call) → Decidable (OverrunsUnbilled limit driver calls)
  | [] => instDecidableTrue
  | call :: rest =>
    have := decidableOverrunsUnbilled limit (machine.step driver call).1 rest
    inferInstanceAs (Decidable ((driver.Overruns limit call →
      ¬ driver.MustSettle call ∧ ∀ next ∈ rest, next.asksAt = none) ∧ _))

/-! ### What is settled for a cost -/

theorem mem_payouts {outputs : List Outbound} {nonce amountMillis : UInt64} :
    .settle nonce amountMillis ∈ outputs ↔
      .settle nonce amountMillis ∈ outputs.filterMap payout := by
  rw [List.mem_filterMap]
  constructor
  · exact fun hmem ↦ ⟨_, hmem, rfl⟩
  · rintro ⟨command, hmem, hpayout⟩
    cases command <;> simp [payout] at hpayout
    obtain ⟨rfl, rfl⟩ := hpayout
    exact hmem

theorem mem_settled {driver : ChargerDriver} {finalCostMillis nonce amountMillis : UInt64} :
    .settle nonce amountMillis ∈ (driver.settled finalCostMillis).2 ↔
      nonce = driver.grant.nonce ∧
        amountMillis = DeliveryEngine.settlement driver.grant finalCostMillis := by
  simp [settled]

theorem settlement_le_cost (grant : Grant) (finalCostMillis : UInt64) :
    (DeliveryEngine.settlement grant finalCostMillis).toNat ≤ finalCostMillis.toNat := by
  rw [DeliveryEngine.toNat_settlement]
  omega

/-- Where nothing clamps it, a cost beyond an amount is settled for more than the amount. -/
theorem lt_settlement {grant : Grant} {amount : ℕ} (hfree : ¬ Clamped grant amount)
    {finalCostMillis : UInt64} (hcost : amount < finalCostMillis.toNat) :
    amount < (DeliveryEngine.settlement grant finalCostMillis).toNat := by
  rw [Clamped, not_or] at hfree
  obtain ⟨hdeposit, hcap⟩ := hfree
  rw [DeliveryEngine.toNat_settlement]
  have htop := grant.depositMillis.toNat_lt
  cases hcaps : grant.caps.maxCostMillis with
  | none =>
    rw [Option.getD_none, UInt64.toNat_maxWord]
    omega
  | some cap =>
    have hlarger : amount < cap.toNat := by simpa [hcaps] using hcap
    rw [Option.getD_some]
    omega

/-! ### Calls that ask for no reading -/

section Quiet

variable {driver : ChargerDriver} {grant : Grant}

/-- A call that does not settle keeps a live driver live. -/
theorem live_of_not_mustSettle (hlive : driver.Live grant) {call : Call}
    (hnot : ¬ driver.MustSettle call) :
    (machine.step driver call).1.Live grant ∧
      (machine.step driver call).2.filterMap payout = [] := by
  rcases step_of_live hlive call with ⟨hnext, hnothing, -⟩ | ⟨hdone, -⟩
  · exact ⟨hnext, hnothing⟩
  · exfalso
    obtain ⟨last, hguard⟩ := hlive.exists_guard
    have hopen : ¬ driver.engine.Done := hlive.1.phase_ne.2
    cases call with
    | handleMessage inbound =>
      cases inbound with
      | grantAck receivedAt => exact hopen hdone
      | done receivedAt raw => exact hnot trivial
      | aborted receivedAt raw => exact hnot trivial
    | revoke now =>
      rw [show machine.step driver (.revoke now) = driver.revoke now from rfl,
        revoke_eq hlive hguard] at hdone
      exact hopen hdone
    | tick now =>
      have hearly : ¬ driver.grant.lease.expiresAt ≤ now := fun hexpired ↦ hnot (Or.inl hexpired)
      have hpending : driver.pendingStop = none := by
        by_contra hsome
        exact hnot (Or.inr (Option.isSome_iff_ne_none.mpr hsome))
      rw [show machine.step driver (.tick now) = driver.tick now from rfl] at hdone
      by_cases hrefused : (⟨driver.grant, last⟩ : BudgetGuard).nonMonotonic (driver.synthesize now)
      · rw [tick_refused hlive hguard hpending hrefused, if_neg hearly] at hdone
        exact hopen hdone
      · obtain ⟨stop, -, htick⟩ := tick_kept hlive hguard hpending (Bool.not_eq_true _ ▸ hrefused)
        rw [htick, if_neg hearly] at hdone
        exact absurd hdone (by simp [observed, DeliveryEngine.Done])

theorem not_mustSettle_of_asksAt {call : Call} (hasks : call.asksAt = none) :
    ¬ driver.MustSettle call := by
  cases call with
  | handleMessage inbound => cases inbound <;> simp_all [Call.asksAt, MustSettle]
  | tick now => simp [Call.asksAt] at hasks
  | revoke now => exact id

/-- Acknowledgements and revocations settle nothing. -/
theorem payouts_of_not_asking (hlive : driver.Live grant) {calls : List Call}
    (hquiet : ∀ call ∈ calls, call.asksAt = none) :
    (machine.outputs driver calls).filterMap payout = [] := by
  induction calls generalizing driver with
  | nil => rfl
  | cons call rest ih =>
    obtain ⟨hnext, hnothing⟩ := live_of_not_mustSettle hlive
      (not_mustSettle_of_asksAt (hquiet call List.mem_cons_self))
    rw [Transducer.outputs_cons, List.filterMap_append, hnothing, List.nil_append]
    exact ih hnext fun later hlater ↦ hquiet later (List.mem_cons_of_mem _ hlater)

/-- Nor do they read. -/
theorem overrunsUnbilled_of_not_asking (limit : UInt64) {calls : List Call}
    (hquiet : ∀ call ∈ calls, call.asksAt = none) : driver.OverrunsUnbilled limit calls := by
  induction calls generalizing driver with
  | nil => trivial
  | cons call rest ih =>
    have hrest : ∀ later ∈ rest, later.asksAt = none :=
      fun later hlater ↦ hquiet later (List.mem_cons_of_mem _ hlater)
    refine ⟨fun hover ↦ ?_, ih hrest⟩
    have hnone : driver.readingTime call = none := by
      rw [readingTime, hquiet call List.mem_cons_self, ite_self]
    exact absurd hover.2 (by simp [hnone])

/-- A stop is pending and the journal is frozen at a cost. -/
structure Frozen (grant : Grant) (cost : UInt64) (driver : ChargerDriver) : Prop where
  live : driver.Live grant
  pending : driver.pendingStop.isSome = true
  journalled : driver.last.costMillisTotal = cost

/-- The first tick or report settles the frozen cost. -/
theorem Frozen.settles {cost : UInt64} (hfrozen : driver.Frozen grant cost) {calls : List Call}
    (hasks : ∃ call ∈ calls, call.asksAt.isSome = true) :
    .settle grant.nonce (DeliveryEngine.settlement grant cost) ∈ machine.outputs driver calls := by
  induction calls generalizing driver with
  | nil => simp at hasks
  | cons call rest ih =>
    obtain ⟨last, hguard⟩ := hfrozen.live.exists_guard
    rw [Transducer.outputs_cons, List.mem_append]
    by_cases hcall : call.asksAt.isSome = true
    · obtain ⟨-, -, houtputs⟩ := step_of_stopped hfrozen.live hguard hcall hfrozen.pending
      rw [houtputs, mem_settled, hfrozen.live.2, hfrozen.journalled]
      exact Or.inl ⟨rfl, rfl⟩
    · right
      have hrest : ∃ later ∈ rest, later.asksAt.isSome = true := by
        obtain ⟨asking, hmem, hsome⟩ := hasks
        rcases List.mem_cons.mp hmem with rfl | hlater
        · exact absurd hsome hcall
        · exact ⟨asking, hlater, hsome⟩
      refine ih ?_ hrest
      cases call with
      | handleMessage inbound =>
        cases inbound with
        | grantAck receivedAt => exact ⟨hfrozen.live, hfrozen.pending, hfrozen.journalled⟩
        | done receivedAt raw => exact absurd rfl hcall
        | aborted receivedAt raw => exact absurd rfl hcall
      | tick now => exact absurd rfl hcall
      | revoke now =>
        rw [show machine.step driver (.revoke now) = driver.revoke now from rfl,
          revoke_eq hfrozen.live hguard]
        exact ⟨hfrozen.live, rfl, hfrozen.journalled⟩

end Quiet

/-! ### Readings within the limit -/

/-- The price of the authorised seconds. -/
def authorised (limit : UInt64) (driver : ChargerDriver) : ℕ :=
  limit.toNat * driver.price.perSecondMillis.toNat

/-- A live driver whose engine and whose journal both stand at costs within the price of the
authorised seconds. -/
structure WithinBill (limit : UInt64) (grant : Grant) (driver : ChargerDriver) : Prop where
  live : driver.Live grant
  kept : ∃ last, driver.engine.guard = some ⟨driver.grant, last⟩ ∧ last.unitsTotal = 0 ∧
    last.costMillisTotal = last.secondsTotal.saturatingMul driver.price.perSecondMillis ∧
    last.costMillisTotal.toNat ≤ driver.authorised limit
  journalled : driver.last.costMillisTotal.toNat ≤ driver.authorised limit

section Within

variable {limit : UInt64} {driver : ChargerDriver} {grant : Grant}

/-- A call on a live driver with no stop pending that asks for a reading takes it. -/
theorem readingTime_of_live (hlive : driver.Live grant) (hpending : driver.pendingStop = none)
    (call : Call) : driver.readingTime call = call.asksAt := by
  have hopen : ¬ driver.engine.Done := hlive.1.phase_ne.2
  rw [readingTime, if_neg (by simp [hopen, hpending])]

/-- A reading that does not overrun costs no more than the authorised seconds do. -/
theorem cost_synthesize_le (hlive : driver.Live grant) (hpending : driver.pendingStop = none)
    {call : Call} {now : Millis} (hasks : call.asksAt = some now)
    (hwithin : ¬ driver.Overruns limit call) :
    (driver.synthesize now).costMillisTotal.toNat ≤ driver.authorised limit := by
  rw [driver.synthesize_eq, UInt64.toNat_saturatingMul, authorised]
  refine (min_le_left _ _).trans ?_
  by_cases hfree : driver.price.perSecondMillis = 0
  · simp [hfree]
  · have hseconds : (driver.synthesize now).secondsTotal ≤ limit := by
      by_contra hbeyond
      refine hwithin ⟨hfree, ?_⟩
      rw [readingTime_of_live hlive hpending, hasks]
      simpa using hbeyond
    exact Nat.mul_le_mul_right _ (UInt64.le_iff_toNat_le.mp hseconds)

/-- A call that does not overrun: the bill it may settle is within the limit, and the driver stays
so or has settled. -/
theorem WithinBill.step (hbill : driver.WithinBill limit grant) {call : Call}
    (hwithin : ¬ driver.Overruns limit call) :
    ((machine.step driver call).1.WithinBill limit grant ∨
        (machine.step driver call).1.engine.Done) ∧
      ∀ nonce amountMillis, .settle nonce amountMillis ∈ (machine.step driver call).2 →
        amountMillis.toNat ≤ driver.authorised limit := by
  obtain ⟨last, hguard, hunits, hpriced, hkept⟩ := hbill.kept
  have hlive := hbill.live
  have hsettled {other : ChargerDriver} {cost : UInt64} (hgrant : other.grant = driver.grant)
      (hcost : cost.toNat ≤ driver.authorised limit) (nonce amountMillis : UInt64)
      (hmem : .settle nonce amountMillis ∈ (other.settled cost).2) :
      amountMillis.toNat ≤ driver.authorised limit := by
    rw [mem_settled, hgrant] at hmem
    rw [hmem.2]
    exact (settlement_le_cost _ _).trans hcost
  by_cases hasks : call.asksAt = none
  · obtain ⟨hnext, hnothing⟩ := live_of_not_mustSettle hlive (not_mustSettle_of_asksAt hasks)
    constructor
    · left
      cases call with
      | handleMessage inbound =>
        cases inbound with
        | grantAck receivedAt => exact ⟨hlive, hbill.kept, hbill.journalled⟩
        | done receivedAt raw => exact absurd hasks (by simp [Call.asksAt])
        | aborted receivedAt raw => exact absurd hasks (by simp [Call.asksAt])
      | tick now => exact absurd hasks (by simp [Call.asksAt])
      | revoke now =>
        rw [show machine.step driver (.revoke now) = driver.revoke now from rfl,
          revoke_eq hlive hguard]
        exact ⟨hlive, hbill.kept, hbill.journalled⟩
    · intro nonce amountMillis hmem
      rw [mem_payouts, hnothing] at hmem
      exact absurd hmem List.not_mem_nil
  · obtain ⟨now, hnow⟩ := Option.ne_none_iff_exists'.mp hasks
    by_cases hpending : driver.pendingStop = none
    · have hreading := cost_synthesize_le hlive hpending hnow hwithin
      cases call with
      | handleMessage inbound =>
        rw [step_report hlive hguard hpending hnow]
        exact ⟨Or.inr rfl, hsettled rfl hreading⟩
      | revoke revokedAt => exact absurd rfl hasks
      | tick tickedAt =>
        obtain rfl : tickedAt = now := Option.some.inj hnow
        show ((driver.tick tickedAt).1.WithinBill limit grant ∨
          (driver.tick tickedAt).1.engine.Done) ∧
          ∀ nonce amountMillis, .settle nonce amountMillis ∈ (driver.tick tickedAt).2 → _
        by_cases hrefused :
            (⟨driver.grant, last⟩ : BudgetGuard).nonMonotonic (driver.synthesize tickedAt)
        · rw [tick_refused hlive hguard hpending hrefused]
          split_ifs
          · exact ⟨Or.inr rfl, hsettled rfl hkept⟩
          · exact ⟨Or.inl ⟨hlive, hbill.kept, hreading⟩, by simp⟩
        · obtain ⟨stop, hstop, htick⟩ :=
            tick_kept hlive hguard hpending (Bool.not_eq_true _ ▸ hrefused)
          have hsilent (nonce amountMillis : UInt64) : .settle nonce amountMillis ∉ stop := by
            intro hmem
            exact absurd (hstop _ hmem) (by simp)
          rw [htick]
          split_ifs
          · refine ⟨Or.inr rfl, fun nonce amountMillis hmem ↦ ?_⟩
            rcases List.mem_append.mp hmem with hmem | hmem
            · exact absurd hmem (hsilent _ _)
            · exact hsettled rfl hreading nonce amountMillis hmem
          · refine ⟨Or.inl ⟨⟨⟨Or.inr rfl, _, rfl, hlive.2⟩, hlive.2⟩, ⟨_, rfl, ?_, ?_, hreading⟩,
              hreading⟩, fun nonce amountMillis hmem ↦ absurd hmem (hsilent _ _)⟩
            · rw [driver.synthesize_eq]
            · rw [driver.synthesize_eq]
              rfl
    · obtain ⟨hdone, -, houtputs⟩ := step_of_stopped hlive hguard
        (Option.isSome_iff_ne_none.mpr hasks) (Option.isSome_iff_ne_none.mpr hpending)
      rw [houtputs]
      exact ⟨Or.inr hdone, hsettled rfl hbill.journalled⟩

/-! ### A reading beyond the limit -/

/-- What an overrunning call reads, where nothing clamps the bill: a cost beyond that of the
authorised seconds. -/
theorem WithinBill.exists_reading (hbill : driver.WithinBill limit grant) {call : Call}
    (hover : driver.Overruns limit call)
    (hfree : ¬ Clamped driver.grant (driver.authorised limit)) :
    ∃ now, call.asksAt = some now ∧ driver.pendingStop = none ∧
      limit < (driver.synthesize now).secondsTotal ∧
      driver.authorised limit < (driver.synthesize now).costMillisTotal.toNat := by
  obtain ⟨hprice, hany⟩ := hover
  obtain ⟨now, hnow, hbeyond⟩ := Option.any_eq_true _ _ |>.mp hany
  have hpending : driver.pendingStop = none := by
    by_contra hsome
    rw [readingTime, if_pos (Or.inr (Option.isSome_iff_ne_none.mpr hsome))] at hnow
    exact absurd hnow (by simp)
  rw [readingTime_of_live hbill.live hpending] at hnow
  have hseconds : limit < (driver.synthesize now).secondsTotal := of_decide_eq_true hbeyond
  refine ⟨now, hnow, hpending, hseconds, ?_⟩
  rw [driver.synthesize_eq, UInt64.toNat_saturatingMul]
  have hmore : driver.authorised limit <
      (driver.synthesize now).secondsTotal.toNat * driver.price.perSecondMillis.toNat := by
    refine Nat.mul_lt_mul_of_pos_right (UInt64.lt_iff_toNat_lt.mp hseconds) ?_
    exact Nat.pos_of_ne_zero (mt (UInt64.eq_zero_iff_toNat _).mpr hprice)
  have hdeposit : driver.authorised limit < driver.grant.depositMillis.toNat := by
    rw [Clamped, not_or] at hfree
    omega
  have htop := driver.grant.depositMillis.toNat_lt
  omega

/-- The engine keeps such a reading, and it exhausts the time cap. -/
theorem WithinBill.keeps (hbill : driver.WithinBill limit grant)
    (hlimit : driver.grant.caps.maxSeconds = some limit) {last : Progress}
    (hguard : driver.engine.guard = some ⟨driver.grant, last⟩) {now : Millis}
    (hseconds : limit < (driver.synthesize now).secondsTotal)
    (hcost : driver.authorised limit < (driver.synthesize now).costMillisTotal.toNat) :
    (⟨driver.grant, last⟩ : BudgetGuard).nonMonotonic (driver.synthesize now) = false ∧
      (⟨driver.grant, driver.synthesize now⟩ : BudgetGuard).exhausted.isSome = true := by
  obtain ⟨other, hother, hunits, hpriced, hkept⟩ := hbill.kept
  obtain rfl : last = other := by
    simpa using hguard.symm.trans hother
  constructor
  · -- The kept cost is within the authorised one, so fewer seconds were kept than are read.
    have hfewer : last.secondsTotal.toNat ≤ (driver.synthesize now).secondsTotal.toNat := by
      have hread := hcost
      rw [driver.synthesize_eq, UInt64.toNat_saturatingMul] at hread
      rw [hpriced, UInt64.toNat_saturatingMul] at hkept
      by_contra hmore
      have := Nat.mul_le_mul_right driver.price.perSecondMillis.toNat (Nat.le_of_not_le hmore)
      omega
    have hzero : (driver.synthesize now).unitsTotal = 0 := by rw [driver.synthesize_eq]
    simp only [BudgetGuard.nonMonotonic, hunits, hzero, UInt64.lt_iff_toNat_lt,
      Bool.or_eq_false_iff,
      decide_eq_false_iff_not]
    omega
  · simp only [BudgetGuard.exhausted, hlimit, Option.any_some]
    split_ifs with hcapUnits hcapSeconds
    · rfl
    · rfl
    · exact absurd (decide_eq_true (UInt64.le_of_lt hseconds)) hcapSeconds
    · exact absurd (decide_eq_true (UInt64.le_of_lt hseconds)) hcapSeconds

/-- Where nothing clamps the bill, an overrunning call settles beyond the limit, or it leaves the
journal frozen beyond it. -/
theorem WithinBill.overrun (hbill : driver.WithinBill limit grant)
    (hlimit : driver.grant.caps.maxSeconds = some limit) {call : Call}
    (hover : driver.Overruns limit call)
    (hfree : ¬ Clamped driver.grant (driver.authorised limit)) :
    ∃ cost, driver.authorised limit < cost.toNat ∧
      (driver.MustSettle call →
        .settle grant.nonce (DeliveryEngine.settlement grant cost) ∈ (machine.step driver call).2) ∧
      (¬ driver.MustSettle call → (machine.step driver call).1.Frozen grant cost) := by
  obtain ⟨now, hasks, hpending, hseconds, hcost⟩ := hbill.exists_reading hover hfree
  obtain ⟨last, hguard⟩ := hbill.live.exists_guard
  obtain ⟨hkept, hexhausted⟩ := hbill.keeps hlimit hguard hseconds hcost
  refine ⟨(driver.synthesize now).costMillisTotal, hcost, ?_⟩
  have hsettled (other : ChargerDriver) (hgrant : other.grant = driver.grant) (cost : UInt64) :
      .settle grant.nonce (DeliveryEngine.settlement grant cost) ∈ (other.settled cost).2 := by
    rw [mem_settled, hgrant, hbill.live.2]
    exact ⟨rfl, rfl⟩
  cases call with
  | handleMessage inbound =>
    rw [step_report hbill.live hguard hpending hasks]
    refine ⟨fun _ ↦ hsettled _ rfl _, fun hnot ↦ absurd ?_ hnot⟩
    cases inbound with
    | grantAck receivedAt => exact absurd hasks (by simp [Call.asksAt])
    | done receivedAt raw => exact trivial
    | aborted receivedAt raw => exact trivial
  | revoke revokedAt => exact absurd hasks (by simp [Call.asksAt])
  | tick tickedAt =>
    obtain rfl : tickedAt = now := Option.some.inj hasks
    obtain ⟨stop, -, htick⟩ := tick_kept hbill.live hguard hpending hkept
    rw [show machine.step driver (.tick tickedAt) = driver.tick tickedAt from rfl, htick]
    constructor
    · rintro (hexpired | hstopped)
      · rw [if_pos hexpired]
        exact List.mem_append_right _ (hsettled (driver.observed _) rfl _)
      · rw [hpending] at hstopped
        exact absurd hstopped (by simp)
    · intro hnot
      rw [if_neg fun hexpired ↦ hnot (Or.inl hexpired)]
      refine ⟨⟨⟨Or.inr rfl, _, rfl, hbill.live.2⟩, hbill.live.2⟩, ?_, rfl⟩
      simp [observed, hexhausted]

end Within

/-! ### Runs -/

section Runs

variable {limit : UInt64} {driver : ChargerDriver} {grant : Grant}

/-- Assumes: a driver whose bill is within the limit, or that has settled, and a run in which no
reading beyond the limit is settled. The run settles nothing beyond it. -/
theorem bills_of_overrunsUnbilled (hbill : driver.WithinBill limit grant ∨ driver.engine.Done)
    {calls : List Call} (hunbilled : driver.OverrunsUnbilled limit calls)
    (nonce amountMillis : UInt64)
    (hmem : .settle nonce amountMillis ∈ machine.outputs driver calls) :
    amountMillis.toNat ≤ driver.authorised limit := by
  induction calls generalizing driver with
  | nil => exact absurd hmem List.not_mem_nil
  | cons call rest ih =>
    have hsame : (machine.step driver call).1.authorised limit = driver.authorised limit := by
      rw [authorised, authorised, (driver.step_frame call).2.1]
    rw [Transducer.outputs_cons, List.mem_append] at hmem
    rcases hbill with hbill | hdone
    · by_cases hover : driver.Overruns limit call
      · obtain ⟨hnot, hquiet⟩ := hunbilled.1 hover
        obtain ⟨hnext, hnothing⟩ := live_of_not_mustSettle hbill.live hnot
        rw [mem_payouts, mem_payouts, hnothing, payouts_of_not_asking hnext hquiet] at hmem
        exact absurd hmem (by simp)
      · obtain ⟨hnext, hhere⟩ := hbill.step hover
        rcases hmem with hmem | hmem
        · exact hhere nonce amountMillis hmem
        · exact hsame ▸ ih hnext hunbilled.2 hmem
    · obtain ⟨hnext, hnothing⟩ := step_of_done hdone call
      rw [hnothing] at hmem
      rcases hmem with hmem | hmem
      · exact absurd hmem List.not_mem_nil
      · exact hsame ▸ ih (Or.inr hnext) hunbilled.2 hmem

/-- Assumes: a driver whose bill is within the limit, or that has settled, a limit that is its time
cap and that nothing clamps the bill below, and a run that settles nothing beyond it. No reading
beyond the limit is settled in it. -/
theorem overrunsUnbilled_of_bills (hbill : driver.WithinBill limit grant ∨ driver.engine.Done)
    (hlimit : driver.grant.caps.maxSeconds = some limit)
    (hfree : ¬ Clamped driver.grant (driver.authorised limit)) {calls : List Call}
    (hbills : ∀ nonce amountMillis, .settle nonce amountMillis ∈ machine.outputs driver calls →
      amountMillis.toNat ≤ driver.authorised limit) :
    driver.OverrunsUnbilled limit calls := by
  induction calls generalizing driver with
  | nil => trivial
  | cons call rest ih =>
    obtain ⟨-, hprice, hgrant⟩ := driver.step_frame call
    have hsame : (machine.step driver call).1.authorised limit = driver.authorised limit := by
      rw [authorised, authorised, hprice]
    have hrest (nonce amountMillis : UInt64)
        (hmem : .settle nonce amountMillis ∈ machine.outputs (machine.step driver call).1 rest) :
        amountMillis.toNat ≤ driver.authorised limit :=
      hbills nonce amountMillis (List.mem_append_right _ hmem)
    have hgoes (hnext : (machine.step driver call).1.WithinBill limit grant ∨
        (machine.step driver call).1.engine.Done) :
        (machine.step driver call).1.OverrunsUnbilled limit rest := by
      apply ih hnext
      · rw [hgrant, hlimit]
      · rw [hgrant, hsame]
        exact hfree
      · rw [hsame]
        exact hrest
    rcases hbill with hbill | hdone
    · by_cases hover : driver.Overruns limit call
      · obtain ⟨cost, hcost, hsettles, hfreezes⟩ := hbill.overrun hlimit hover hfree
        have hbeyond : driver.authorised limit < (DeliveryEngine.settlement grant cost).toNat :=
          lt_settlement (hbill.live.2 ▸ hfree) hcost
        have hnot : ¬ driver.MustSettle call := by
          intro hmust
          have := hbills _ _ (List.mem_append_left _ (hsettles hmust))
          omega
        have hquiet : ∀ next ∈ rest, next.asksAt = none := by
          intro next hmem
          by_contra hasks
          have := hrest _ _
            ((hfreezes hnot).settles ⟨next, hmem, Option.isSome_iff_ne_none.mpr hasks⟩)
          omega
        exact ⟨fun _ ↦ ⟨hnot, hquiet⟩, overrunsUnbilled_of_not_asking limit hquiet⟩
      · exact ⟨fun hthere ↦ absurd hthere hover, hgoes (hbill.step hover).1⟩
    · have hnone : driver.readingTime call = none := by
        rw [readingTime, if_pos (Or.inl hdone)]
      exact ⟨fun hover ↦ absurd hover.2 (by simp [hnone]),
        hgoes (Or.inr (step_of_done hdone call).1)⟩

end Runs

/-- Assumes: a grant with a time cap. For every price and every run of calls from `open`: the bill
stays within the price of the authorised seconds exactly when the deposit or the money cap holds it
there, or no reading beyond the authorised seconds is settled. -/
theorem billsWithin_iff (limit : UInt64) (device : String) (grant : Grant) (price : PriceVector)
    (openedAt : Millis) (calls : List Call) (hlimit : grant.caps.maxSeconds = some limit) :
    BillsWithin limit device grant price openedAt calls ↔
      Clamped grant (limit.toNat * price.perSecondMillis.toNat) ∨
        OverrunsUnbilled limit (ChargerDriver.open device grant price openedAt).1 calls := by
  set opened := (ChargerDriver.open device grant price openedAt).1 with hopened
  have hlive : opened.Live grant := ⟨DeliveryEngine.live_grantIssued grant, rfl⟩
  have hbill : opened.WithinBill limit grant := by
    refine ⟨hlive, ⟨⟨0, 0, 0, 0⟩, rfl, rfl, ?_, Nat.zero_le _⟩, Nat.zero_le _⟩
    rw [eq_comm, UInt64.eq_zero_iff_toNat, UInt64.toNat_saturatingMul, UInt64.toNat_zero]
    omega
  constructor
  · intro hbills
    by_cases hfree : Clamped grant (limit.toNat * price.perSecondMillis.toNat)
    · exact Or.inl hfree
    · exact Or.inr (overrunsUnbilled_of_bills (Or.inl hbill) hlimit hfree hbills)
  · rintro (hclamped | hunbilled) nonce amountMillis hmem
    · rw [mem_payouts] at hmem
      rcases (settlesGrant_of_live hlive calls).paysOnce with hnothing | hpaid
      · rw [hnothing] at hmem
        exact absurd hmem List.not_mem_nil
      · obtain ⟨granted, before, call, after, hgranted, -, hpayouts, hcloses⟩ := hpaid
        obtain ⟨burned, change, htwo, -, hdeposit, hcap⟩ := hcloses.exists_amounts
        obtain rfl : grant = granted := Option.some.inj hgranted
        rw [hpayouts, htwo] at hmem
        have hamount : nonce = grant.nonce ∧ amountMillis = burned := by simpa using hmem
        rw [hamount.2]
        rcases hclamped with hsmall | hsmall
        · exact (UInt64.le_iff_toNat_le.mp hdeposit).trans hsmall
        · obtain ⟨cap, hsome, hle⟩ := Option.any_eq_true _ _ |>.mp hsmall
          exact (UInt64.le_iff_toNat_le.mp (hcap cap hsome)).trans (of_decide_eq_true hle)
    · exact bills_of_overrunsUnbilled (Or.inl hbill) hunbilled nonce amountMillis hmem

/-- A session that is ticked every second and runs into a cap of three. -/
theorem billsWithin_of_frequent_ticks :
    BillsWithin 3 "plug" { DeliveryEngine.sampleGrant with caps := ⟨none, some 3, none⟩ } ⟨1⟩ 0
      [.handleMessage (.grantAck 0), .tick 1000, .tick 2000, .tick 3000, .tick 4000] :=
  (billsWithin_iff 3 "plug" { DeliveryEngine.sampleGrant with caps := ⟨none, some 3, none⟩ } ⟨1⟩ 0
    [.handleMessage (.grantAck 0), .tick 1000, .tick 2000, .tick 3000, .tick 4000] rfl).mpr
    (Or.inr (by decide +kernel))

/-- The same session with a tick at two and a half seconds and the next one at five: five seconds
are settled. So they are if the device reports at five seconds. -/
theorem billsWithin_fails :
    ¬ BillsWithin 3 "plug" { DeliveryEngine.sampleGrant with caps := ⟨none, some 3, none⟩ } ⟨1⟩ 0
        [.handleMessage (.grantAck 0), .tick 2500, .tick 5000, .tick 6000] ∧
      ¬ BillsWithin 3 "plug" { DeliveryEngine.sampleGrant with caps := ⟨none, some 3, none⟩ } ⟨1⟩ 0
        [.handleMessage (.grantAck 0), .handleMessage (.done 5000 [])] := by
  constructor
  · intro hbills
    exact absurd (hbills 7 5 (by decide +kernel)) (by decide)
  · intro hbills
    exact absurd (hbills 7 5 (by decide +kernel)) (by decide)

end ChargerDriver

end Tollgate
