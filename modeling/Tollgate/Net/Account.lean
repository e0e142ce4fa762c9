import Tollgate.Core.CostRange
import Tollgate.Net.CostAgreement
import Tollgate.Net.Exchange

/-!
# The provider's account of a consumer

What a consumer is worth to the provider: the balance left, and what the metering session that goes
on has cost so far. A charge moves from the one to the other, and since every charge truncates its
time part, the sum of both never falls while the session goes on (`worth_charged`). It falls when a
session ends, by what that session has cost. `Consumer.remaining_le` is the other side: a consumer
that has paid no more than this sum, and takes off it the cost of the session, is left with no more
than the balance.
-/

set_option autoImplicit false
set_option relaxedAutoImplicit false

namespace Tollgate

open Std

/-! ### Costs that do not fit -/

namespace Price

variable {price : Price} (hsecond : 0 ≤ price.perSecond.toInt) (hunit : 0 ≤ price.perUnit.toInt)

include hsecond hunit

/-- Costs of parts add up to at most the cost of the whole. -/
theorem exactCost_add_le (elapsedMs moreMs units more : ℕ) :
    price.exactCost elapsedMs units + price.exactCost moreMs more ≤
      price.exactCost (elapsedMs + moreMs) (units + more) := by
  simp only [exactCost_of_nonneg hsecond hunit]
  rw [Nat.add_mul, Nat.add_mul]
  omega

/-- What is charged is never more than the exact cost. -/
theorem chargeOf_le (elapsedMs units : UInt64) :
    ((PeerSession.chargeOf (price.costScaled elapsedMs units)).toNat : ℤ) ≤
      price.exactCost elapsedMs.toNat units.toNat := by
  have hnonneg := exactCost_nonneg hsecond hunit elapsedMs.toNat units.toNat
  rw [toNat_chargeOf_costScaled hsecond hunit]
  split_ifs <;> omega

end Price

/-- Assumes: a consumer that has paid at most the balance and the cost reported, and a cost that the
register holds. What it reckons to have left is at most the balance. -/
theorem Consumer.remaining_le {price : Price} (hsecond : 0 ≤ price.perSecond.toInt)
    (hunit : 0 ≤ price.perUnit.toInt) {paid balance elapsedMs units : UInt64}
    (hfits : price.exactCost elapsedMs.toNat units.toNat < 2 ^ 127)
    (hpaid : (paid.toNat : ℤ) ≤ balance.toNat + price.exactCost elapsedMs.toNat units.toNat) :
    (saturatingSubSigned paid.toInt64 (price.costScaled elapsedMs units)).toInt ≤
      balance.toNat := by
  have hnonneg := Price.exactCost_nonneg hsecond hunit elapsedMs.toNat units.toNat
  have hword := paid.toInt_toInt64_le
  have hsigned := paid.toInt64.toInt_lt
  rw [saturatingSubSigned, Int64.toInt_clampOfInt, Price.costScaled_eq, Int64.toInt_clampOfInt,
    Int.wrap128_of_mem (by omega) hfits]
  omega

/-! ### What a consumer is worth -/

/-- What the metering session that goes on has cost. -/
def PeerSession.accrued (entry : PeerSession) (price : Price) : ℤ :=
  if entry.lastCounters.isSome then
    price.exactCost (entry.lastMeterAt.toNat - entry.meteringStart.toNat) entry.billedUnits.toNat
  else 0

/-- The balance left, and what the metering session that goes on has cost. -/
def Entry.worth (price : Price) : Option PeerSession → ℤ
  | some entry => entry.balance.toNat + entry.accrued price
  | none => 0

section Charged

variable {price : Price} (hsecond : 0 ≤ price.perSecond.toInt) (hunit : 0 ≤ price.perUnit.toInt)

include hsecond hunit

/-- Assumes: a clock and a tally that have not gone back. A charged sample takes off the balance at
most what it adds to the cost of the session. -/
theorem PeerSession.worth_charged (cbor : Minicbor) (peer : PeerId) (policy : MeteringPolicy)
    {entry : PeerSession} {counters : Counters} {now : Millis}
    (hread : entry.lastCounters.isSome = true) (hstart : entry.meteringStart ≤ entry.lastMeterAt)
    (hnow : entry.lastMeterAt ≤ now) (hbilled : entry.billedUnits ≤ entry.billable counters) :
    Entry.worth price (some entry) ≤
      Entry.worth price (some (entry.chargeSample cbor peer price policy counters now).1) := by
  have hcharge := Price.chargeOf_le hsecond hunit (Millis.since now entry.lastMeterAt)
    (entry.newUnits counters)
  have hsum := Price.exactCost_add_le hsecond hunit
    (entry.lastMeterAt.toNat - entry.meteringStart.toNat)
    (Millis.since now entry.lastMeterAt).toNat entry.billedUnits.toNat
    (entry.newUnits counters).toNat
  rw [UInt64.le_iff_toNat_le] at hstart hnow hbilled
  have hnew := entry.toNat_newUnits counters
  have htime : entry.lastMeterAt.toNat - entry.meteringStart.toNat +
      (Millis.since now entry.lastMeterAt).toNat = now.toNat - entry.meteringStart.toNat := by
    rw [Millis.toNat_since]
    omega
  have hunits : entry.billedUnits.toNat + (entry.newUnits counters).toNat =
      (entry.billable counters).toNat := by
    omega
  rw [htime, hunits] at hsum
  show entry.balance.toNat + entry.accrued price ≤
    (entry.balanceAfter counters price now).toNat +
      price.exactCost (now.toNat - entry.meteringStart.toNat) (entry.billable counters).toNat
  rw [accrued, if_pos hread, toNat_balanceAfter]
  unfold sampleCost
  omega

end Charged

end Tollgate
