import Tollgate.Core.ElapsedTime

/-!
# Costs at the edge of the register

Each of the two products of `cost_scaled` fits a 128-bit register, whatever the price and the
reading. Their sum need not: one product near the limit fills the register, and the other comes on
top of it. Where the exact cost leaves the register the sum comes out with the wrong sign, and the
clamp turns it into the opposite end of the result type (`toInt_costScaled_eq`). For a price that is
not negative this is the lowest cost there is, so the highest readings are charged nothing.
-/

set_option autoImplicit false
set_option relaxedAutoImplicit false

namespace Tollgate

open Std

/-- A value that a signed register of 128 bits holds. -/
def Fits128 (value : ℤ) : Prop :=
  -(2 ^ 127) ≤ value ∧ value < 2 ^ 127

instance (value : ℤ) : Decidable (Fits128 value) :=
  inferInstanceAs (Decidable (_ ∧ _))

namespace Price

/-! ### The value of a cost -/

/-- The cost of a reading is the exact one, clamped, and nothing on the way to it leaves the
register. -/
structure CostExact (price : Price) (elapsedMs units : UInt64) : Prop where
  time_fits : Fits128 (elapsedMs.toNat * price.perSecond.toInt)
  unit_fits : Fits128 (units.toNat * price.perUnit.toInt)
  total_fits : Fits128 (price.exactCost elapsedMs.toNat units.toNat)
  cost_eq : (price.costScaled elapsedMs units).toInt =
    max (-(2 ^ 63)) (min (price.exactCost elapsedMs.toNat units.toNat) (2 ^ 63 - 1))

instance (price : Price) (elapsedMs units : UInt64) :
    Decidable (price.CostExact elapsedMs units) :=
  decidable_of_iff
    (Fits128 (elapsedMs.toNat * price.perSecond.toInt) ∧
      Fits128 (units.toNat * price.perUnit.toInt) ∧
      Fits128 (price.exactCost elapsedMs.toNat units.toNat) ∧
      (price.costScaled elapsedMs units).toInt =
        max (-(2 ^ 63)) (min (price.exactCost elapsedMs.toNat units.toNat) (2 ^ 63 - 1)))
    ⟨fun h ↦ ⟨h.1, h.2.1, h.2.2.1, h.2.2.2⟩,
      fun h ↦ ⟨h.time_fits, h.unit_fits, h.total_fits, h.cost_eq⟩⟩

/-- The product of a count and a rate stays `2 ^ 63` away from the upper end of the register. -/
theorem product_bounds (count : UInt64) (rate : Int64) :
    -(2 ^ 127) + 2 ^ 63 ≤ (count.toNat * rate.toInt : ℤ) ∧
      (count.toNat * rate.toInt : ℤ) < 2 ^ 127 - 2 ^ 63 := by
  have hcount : (count.toNat : ℤ) ≤ 2 ^ 64 - 1 := by
    have := count.toNat_lt
    omega
  have hcount0 : (0 : ℤ) ≤ count.toNat := Int.natCast_nonneg _
  have hlow := rate.le_toInt
  have hhigh := rate.toInt_lt
  constructor
  · nlinarith
  · nlinarith

theorem product_fits (count : UInt64) (rate : Int64) : Fits128 (count.toNat * rate.toInt) := by
  obtain ⟨hlow, hhigh⟩ := product_bounds count rate
  exact ⟨by omega, by omega⟩

/-- The exact cost never leaves the register by more than half of its range. -/
theorem exactCost_bounds (price : Price) (elapsedMs units : UInt64) :
    -(2 ^ 128) + 2 ^ 64 ≤ price.exactCost elapsedMs.toNat units.toNat ∧
      price.exactCost elapsedMs.toNat units.toNat < 2 ^ 128 - 2 ^ 64 := by
  obtain ⟨htimeLow, htimeHigh⟩ := product_bounds elapsedMs price.perSecond
  obtain ⟨hunitLow, hunitHigh⟩ := product_bounds units price.perUnit
  have htime := Int.natAbs_tdiv_le_natAbs (elapsedMs.toNat * price.perSecond.toInt) 1000
  unfold exactCost
  omega

/-- What is computed for any reading: the exact cost clamped, if the register holds it, and the
opposite end of the result type if not. -/
theorem toInt_costScaled_eq (price : Price) (elapsedMs units : UInt64) :
    (price.costScaled elapsedMs units).toInt =
      if price.exactCost elapsedMs.toNat units.toNat < -(2 ^ 127) then 2 ^ 63 - 1
      else if price.exactCost elapsedMs.toNat units.toNat < 2 ^ 127 then
        max (-(2 ^ 63)) (min (price.exactCost elapsedMs.toNat units.toNat) (2 ^ 63 - 1))
      else -(2 ^ 63) := by
  obtain ⟨hlow, hhigh⟩ := price.exactCost_bounds elapsedMs units
  rw [costScaled_eq, Int64.toInt_clampOfInt]
  generalize price.exactCost elapsedMs.toNat units.toNat = exact at hlow hhigh ⊢
  have hwrap : Int.wrap128 exact =
      if exact < -(2 ^ 127) then exact + 2 ^ 128
      else if exact < 2 ^ 127 then exact else exact - 2 ^ 128 := by
    unfold Int.wrap128
    rw [Int.bmod_def]
    split_ifs <;> omega
  rw [hwrap]
  split_ifs <;> omega

/-- The cost is the exact one exactly when the register holds it. -/
theorem costExact_iff (price : Price) (elapsedMs units : UInt64) :
    price.CostExact elapsedMs units ↔ Fits128 (price.exactCost elapsedMs.toNat units.toNat) := by
  refine ⟨fun hexact ↦ ?_, fun hfits ↦
    ⟨product_fits elapsedMs price.perSecond, product_fits units price.perUnit, hfits, ?_⟩⟩
  · -- Past either end of the register the clamp lands on the other side of zero.
    have hvalue := hexact.cost_eq
    rw [toInt_costScaled_eq] at hvalue
    unfold Fits128
    split_ifs at hvalue with hlow hhigh <;> omega
  · rw [toInt_costScaled_eq, if_neg (Int.not_lt.mpr hfits.1), if_pos hfits.2]

/-! ### Larger readings -/

section Nonnegative

variable {price : Price} (hsecond : 0 ≤ price.perSecond.toInt) (hunit : 0 ≤ price.perUnit.toInt)

include hsecond hunit

/-- The exact cost grows with both arguments. -/
theorem exactCost_mono {elapsedMs laterMs units more : ℕ} (helapsed : elapsedMs ≤ laterMs)
    (hunits : units ≤ more) : price.exactCost elapsedMs units ≤ price.exactCost laterMs more := by
  have htime : ((elapsedMs : ℤ) * price.perSecond.toInt).tdiv 1000 ≤
      ((laterMs : ℤ) * price.perSecond.toInt).tdiv 1000 :=
    Int.tdiv_le_tdiv (by decide)
      (mul_le_mul_of_nonneg_right (by exact_mod_cast helapsed) hsecond)
  have hunitPart : (units : ℤ) * price.perUnit.toInt ≤ more * price.perUnit.toInt :=
    mul_le_mul_of_nonneg_right (by exact_mod_cast hunits) hunit
  exact add_le_add htime hunitPart

theorem exactCost_nonneg (elapsedMs units : ℕ) : 0 ≤ price.exactCost elapsedMs units := by
  have hmono := exactCost_mono hsecond hunit (Nat.zero_le elapsedMs) (Nat.zero_le units)
  simpa [exactCost] using hmono

/-- The cost of a larger reading is no lower exactly when the register holds its exact cost, or
does not even hold that of the smaller one. -/
theorem costScaled_le_iff {elapsedMs laterMs units more : UInt64} (helapsed : elapsedMs ≤ laterMs)
    (hunits : units ≤ more) :
    price.costScaled elapsedMs units ≤ price.costScaled laterMs more ↔
      price.exactCost laterMs.toNat more.toNat < 2 ^ 127 ∨
        2 ^ 127 ≤ price.exactCost elapsedMs.toNat units.toNat := by
  have hmono := exactCost_mono hsecond hunit (UInt64.le_iff_toNat_le.mp helapsed)
    (UInt64.le_iff_toNat_le.mp hunits)
  have hnonneg := exactCost_nonneg hsecond hunit elapsedMs.toNat units.toNat
  have hsmaller : ¬ price.exactCost elapsedMs.toNat units.toNat < -(2 ^ 127) := by omega
  have hlarger : ¬ price.exactCost laterMs.toNat more.toNat < -(2 ^ 127) := by omega
  rw [Int64.le_iff_toInt_le, toInt_costScaled_eq, toInt_costScaled_eq, if_neg hsmaller,
    if_neg hlarger]
  split_ifs <;> omega

/-- What a sample is charged: the exact cost as far as the result type goes, and nothing once the
register does not hold it. -/
theorem toNat_chargeOf_costScaled (elapsedMs units : UInt64) :
    ((PeerSession.chargeOf (price.costScaled elapsedMs units)).toNat : ℤ) =
      if price.exactCost elapsedMs.toNat units.toNat < 2 ^ 127 then
        min (price.exactCost elapsedMs.toNat units.toNat) (2 ^ 63 - 1)
      else 0 := by
  have hnonneg := exactCost_nonneg hsecond hunit elapsedMs.toNat units.toNat
  have hcost := price.toInt_costScaled_eq elapsedMs units
  have hlimit := (price.costScaled elapsedMs units).toInt_lt
  rw [if_neg (by omega)] at hcost
  rw [PeerSession.toNat_chargeOf, hcost]
  split_ifs <;> omega

end Nonnegative

end Price

/-! ### Larger readings of a session -/

/-- What a peer is charged at a sample. -/
def Session.charged (cbor : Minicbor) (session : Session) (peer : PeerId) (counters : Counters)
    (now : Millis) : ℕ :=
  ((session.charges cbor peer (.meterSample peer counters, now)).map fun charge ↦
    (PeerSession.chargeOf charge.cost).toNat).sum

section Charged

variable {cbor : Minicbor} {session : Session} {peer : PeerId}

/-- A peer in a metering session is charged the cost of the sample. -/
theorem charged_of_baseline {entry : PeerSession} (hentry : session.peers[peer]? = some entry)
    (hmetered : entry.phase = .active ∧ entry.lastCounters.isSome = true) (counters : Counters)
    (now : Millis) :
    session.charged cbor peer counters now =
      (PeerSession.chargeOf (entry.sampleCost counters session.price now)).toNat := by
  have hcharges : session.charges cbor peer (.meterSample peer counters, now) =
      [entry.charge session.price counters now] := by
    rw [Session.charges, PeerEvent.of_meterSample, hentry]
    exact if_pos hmetered
  rw [Session.charged, hcharges]
  exact Nat.add_zero _

/-- Any other peer is charged nothing. -/
theorem charged_of_not_metered
    (hnot : ∀ entry, session.peers[peer]? = some entry →
      ¬ (entry.phase = .active ∧ entry.lastCounters.isSome = true))
    (counters : Counters) (now : Millis) : session.charged cbor peer counters now = 0 := by
  have hcharges : session.charges cbor peer (.meterSample peer counters, now) = [] := by
    rw [Session.charges, PeerEvent.of_meterSample]
    cases hentry : session.peers[peer]? with
    | none => rfl
    | some entry => exact if_neg (hnot entry hentry)
  rw [Session.charged, hcharges]
  rfl

/-- The balance falls by what is charged, as far as it goes. -/
theorem balance_after_sample {entry : PeerSession} (hentry : session.peers[peer]? = some entry)
    (hmetered : entry.phase = .active ∧ entry.lastCounters.isSome = true) (counters : Counters)
    (now : Millis) :
    (session.handle cbor (.meterSample peer counters) now).1.peers[peer]?.map
        (fun after ↦ after.balance.toNat) =
      some (entry.balance.toNat - session.charged cbor peer counters now) := by
  rw [(handle_sample_charge hentry hmetered.1 hmetered.2 counters now).1,
    charged_of_baseline hentry hmetered, Option.map_some]
  exact congrArg some (entry.toNat_balanceAfter counters session.price now)

/-- More delivered is more to bill. -/
theorem PeerSession.newUnits_mono (entry : PeerSession) {counters larger : Counters}
    (hdelivered : counters.delivered ≤ larger.delivered) :
    entry.newUnits counters ≤ entry.newUnits larger := by
  have hours : counters.delivered.toNat - entry.meteringBaseline.delivered.toNat ≤
      larger.delivered.toNat - entry.meteringBaseline.delivered.toNat :=
    Nat.sub_le_sub_right (UInt64.le_iff_toNat_le.mp hdelivered) _
  have hbillable := entry.toNat_billable counters
  have hlarger := entry.toNat_billable larger
  rw [UInt64.le_iff_toNat_le, PeerSession.toNat_newUnits, PeerSession.toNat_newUnits]
  omega

/-- Assumes: a price that is not negative, and a reading with no less delivered than another at the
same time. It is charged no less exactly when the register holds its exact cost, or the smaller
reading is charged nothing either. -/
theorem charged_le_iff (hsecond : 0 ≤ session.price.perSecond.toInt)
    (hunit : 0 ≤ session.price.perUnit.toInt) {counters larger : Counters}
    (hdelivered : counters.delivered ≤ larger.delivered) (now : Millis) :
    session.charged cbor peer counters now ≤ session.charged cbor peer larger now ↔
      ∀ entry, session.peers[peer]? = some entry →
        entry.phase = .active ∧ entry.lastCounters.isSome = true →
        let cost := fun reading : Counters ↦
          session.price.exactCost (Millis.since now entry.lastMeterAt).toNat
            (entry.newUnits reading).toNat
        cost larger < 2 ^ 127 ∨ cost counters = 0 ∨ 2 ^ 127 ≤ cost counters := by
  by_cases hmetered : ∃ entry, session.peers[peer]? = some entry ∧
      entry.phase = .active ∧ entry.lastCounters.isSome = true
  · obtain ⟨entry, hentry, hactive⟩ := hmetered
    have hcharge (reading : Counters) :=
      Price.toNat_chargeOf_costScaled hsecond hunit (Millis.since now entry.lastMeterAt)
        (entry.newUnits reading)
    have hnonneg := Price.exactCost_nonneg hsecond hunit
      (Millis.since now entry.lastMeterAt).toNat (entry.newUnits counters).toNat
    have hmono := Price.exactCost_mono hsecond hunit
      (Nat.le_refl (Millis.since now entry.lastMeterAt).toNat)
      (UInt64.le_iff_toNat_le.mp (entry.newUnits_mono hdelivered))
    have hsmaller := hcharge counters
    have hlarger := hcharge larger
    rw [charged_of_baseline hentry hactive, charged_of_baseline hentry hactive,
      PeerSession.sampleCost, PeerSession.sampleCost, ← Int.ofNat_le, hsmaller, hlarger]
    constructor
    · intro hle other hother _
      obtain rfl := Option.some.inj (hentry.symm.trans hother)
      split_ifs at hle <;> simp only <;> omega
    · intro hcondition
      have hentryCondition := hcondition entry hentry hactive
      simp only at hentryCondition
      split_ifs <;> omega
  · have hnot (entry : PeerSession) (hentry : session.peers[peer]? = some entry) :
        ¬ (entry.phase = .active ∧ entry.lastCounters.isSome = true) :=
      fun hactive ↦ hmetered ⟨entry, hentry, hactive⟩
    rw [charged_of_not_metered hnot, charged_of_not_metered hnot]
    exact iff_of_true le_rfl fun entry hentry hactive ↦ absurd hactive (hnot entry hentry)

end Charged

/-- For every price and reading: the cost is the exact one, clamped, and everything on the way to it
fits, exactly when the exact cost fits 128 bits. And for every price that is not negative: the cost
of a larger reading is no lower, and a sample with more delivered is charged no less, exactly when
the exact cost of the larger one fits or the smaller one is already past that point. -/
theorem cost_exact_iff (price : Price) :
    (∀ elapsedMs units, price.CostExact elapsedMs units ↔
      Fits128 (price.exactCost elapsedMs.toNat units.toNat)) ∧
    (0 ≤ price.perSecond → 0 ≤ price.perUnit →
      (∀ elapsedMs laterMs units more, elapsedMs ≤ laterMs → units ≤ more →
        (price.costScaled elapsedMs units ≤ price.costScaled laterMs more ↔
          price.exactCost laterMs.toNat more.toNat < 2 ^ 127 ∨
            2 ^ 127 ≤ price.exactCost elapsedMs.toNat units.toNat)) ∧
      ∀ (cbor : Minicbor) (session : Session) (peer : PeerId), session.price = price →
        ∀ counters larger now, counters.delivered ≤ larger.delivered →
        (session.charged cbor peer counters now ≤ session.charged cbor peer larger now ↔
          ∀ entry, session.peers[peer]? = some entry →
            entry.phase = .active ∧ entry.lastCounters.isSome = true →
            let cost := fun reading : Counters ↦
              price.exactCost (Millis.since now entry.lastMeterAt).toNat
                (entry.newUnits reading).toNat
            cost larger < 2 ^ 127 ∨ cost counters = 0 ∨ 2 ^ 127 ≤ cost counters)) := by
  refine ⟨price.costExact_iff, fun hsecond hunit ↦ ?_⟩
  have hsecond' : 0 ≤ price.perSecond.toInt := Int64.le_iff_toInt_le.mp hsecond
  have hunit' : 0 ≤ price.perUnit.toInt := Int64.le_iff_toInt_le.mp hunit
  refine ⟨fun elapsedMs laterMs units more helapsed hunits ↦
    Price.costScaled_le_iff hsecond' hunit' helapsed hunits, ?_⟩
  rintro cbor session peer rfl counters larger now hdelivered
  exact charged_le_iff hsecond' hunit' hdelivered now

/-- The highest price and the highest reading: the cost comes out as the lowest number there is, and
not the highest. -/
theorem highest_reading_costs_least :
    ¬ Price.CostExact ⟨Int64.maxValue, Int64.maxValue⟩ (2 ^ 64 - 1) (2 ^ 64 - 1) ∧
      Price.costScaled ⟨Int64.maxValue, Int64.maxValue⟩ (2 ^ 64 - 1) (2 ^ 64 - 1) =
        Int64.minValue := by
  decide +kernel

end Tollgate
