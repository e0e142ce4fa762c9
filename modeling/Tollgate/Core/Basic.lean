import Tollgate.Library.Saturating
import Tollgate.Protocol.Message

/-!
# Inputs, outputs and arithmetic of the core

The small modules of `tollgate-core`: access levels, counters and their reconciliation, time,
prices, and the events and actions of the state machine. `Price.costScaled` follows the 128-bit
intermediate arithmetic of the source, which wraps where an exact value leaves the register;
`Price.exactCost` is the cost over the integers, and `Price.toInt_costScaled` says that the two
agree whenever the exact cost fits the result type.
-/

set_option autoImplicit false
set_option relaxedAutoImplicit false

namespace Tollgate

/-! ### Access levels -/

/-- What a peer is currently allowed to do. -/
inductive AccessLevel
  | none | active | zeroPrice | suspended
  deriving DecidableEq, Repr

/-- Whether resources may be delivered to or from the peer. -/
def AccessLevel.allowsDelivery : AccessLevel → Bool
  | active | zeroPrice => true
  | none | suspended => false

/-! ### Metering -/

/-- Cumulative metering counters. -/
structure Counters where
  delivered : UInt64
  received : UInt64
  deriving DecidableEq, Repr

/-- The counters of a meter that has read nothing. -/
def Counters.default : Counters := ⟨0, 0⟩

/-- The higher of two tallies of one flow. -/
def reconcile (ours theirs : UInt64) : UInt64 :=
  if theirs < ours then ours else theirs

@[simp] theorem toNat_reconcile (ours theirs : UInt64) :
    (reconcile ours theirs).toNat = max ours.toNat theirs.toNat := by
  unfold reconcile
  split_ifs with h
  · rw [UInt64.lt_iff_toNat_lt] at h
    omega
  · rw [UInt64.lt_iff_toNat_lt] at h
    omega

/-! ### Time -/

/-- A timestamp in milliseconds. -/
abbrev Millis := UInt64

/-- Elapsed time since `earlier`, saturating at zero. -/
def Millis.since (now earlier : Millis) : UInt64 :=
  UInt64.saturatingSub now earlier

@[simp] theorem Millis.toNat_since (now earlier : Millis) :
    (Millis.since now earlier).toNat = now.toNat - earlier.toNat :=
  UInt64.toNat_saturatingSub now earlier

/-! ### Prices -/

/-- The rate charged to a peer, in scaled units for each second and for each unit delivered. -/
structure Price where
  perSecond : Int64
  perUnit : Int64
  deriving DecidableEq, Repr

namespace Price

/-- The price of a node that was given none. -/
def default : Price := ⟨0, 0⟩

/-- Cost of `elapsedMs` of time and `units` delivered, in the 128-bit arithmetic of the source and
clamped to the result type. -/
def costScaled (price : Price) (elapsedMs units : UInt64) : Int64 :=
  let time := (Int.wrap128 (elapsedMs.toNat * price.perSecond.toInt)).tdiv 1000
  let unit := Int.wrap128 (units.toNat * price.perUnit.toInt)
  let total := Int.wrap128 (time + unit)
  Int64.clampOfInt total

/-- The cost over the integers, with the time part truncated toward zero. -/
def exactCost (price : Price) (elapsedMs units : ℕ) : ℤ :=
  ((elapsedMs : ℤ) * price.perSecond.toInt).tdiv 1000 + units * price.perUnit.toInt

/-- The product of a 64-bit count and a 64-bit rate fits a 128-bit register. -/
theorem wrap128_mul (count : UInt64) (rate : Int64) :
    Int.wrap128 (count.toNat * rate.toInt) = count.toNat * rate.toInt := by
  have hcount : (count.toNat : ℤ) < 2 ^ 64 := by exact_mod_cast count.toNat_lt
  have hcount0 : (0 : ℤ) ≤ count.toNat := Int.natCast_nonneg _
  have hlow := rate.le_toInt
  have hhigh := rate.toInt_lt
  apply Int.wrap128_of_mem
  · nlinarith
  · nlinarith

/-- Only the sum can leave the register. -/
theorem costScaled_eq (price : Price) (elapsedMs units : UInt64) :
    price.costScaled elapsedMs units =
      Int64.clampOfInt (Int.wrap128 (price.exactCost elapsedMs.toNat units.toNat)) := by
  unfold costScaled exactCost
  simp only [wrap128_mul]

/-- Assumes: an exact cost inside the 64-bit signed range. The computed cost is the exact one. -/
theorem toInt_costScaled (price : Price) (elapsedMs units : UInt64)
    (hlow : -(2 ^ 63) ≤ price.exactCost elapsedMs.toNat units.toNat)
    (hhigh : price.exactCost elapsedMs.toNat units.toNat < 2 ^ 63) :
    (price.costScaled elapsedMs units).toInt =
      price.exactCost elapsedMs.toNat units.toNat := by
  rw [costScaled_eq, Int.wrap128_of_mem (by omega) (by omega)]
  exact Int64.toInt_clampOfInt_of_mem hlow hhigh

end Price

/-! ### Peers, events and actions -/

/-- A peer, identified by its raw public key. -/
abbrev PeerId := PublicKey

/-- Peers are ordered by the bytes of their keys. -/
instance transCmpPeerId : Std.TransCmp (compare : PeerId → PeerId → Ordering) :=
  inferInstance

/-- Something that happened in the outside world. -/
inductive Event
  | peerConnected (peer : PeerId)
  | peerDisconnected (peer : PeerId)
  | messageReceived (peer : PeerId) (bytes : Bytes)
  | meterSample (peer : PeerId) (counters : Counters)
  | bootstrapVerified (peer : PeerId) (amount : UInt64) (ok : Bool)
  | tick
  deriving DecidableEq

/-- The peer an event is about; the timer tick is about none. -/
def Event.peer : Event → Option PeerId
  | peerConnected peer => some peer
  | peerDisconnected peer => some peer
  | messageReceived peer _ => some peer
  | meterSample peer _ => some peer
  | bootstrapVerified peer _ _ => some peer
  | tick => none

/-- An effect the core asks the host to carry out. -/
inductive Action
  | send (peer : PeerId) (bytes : Bytes)
  | setAccess (peer : PeerId) (level : AccessLevel)
  | verifyBootstrapToken (peer : PeerId) (token : Bytes)
  | startMetering (peer : PeerId)
  | stopMetering (peer : PeerId)
  | disconnect (peer : PeerId)
  deriving DecidableEq

/-- The peer an action is about. -/
def Action.peer : Action → PeerId
  | send peer _ => peer
  | setAccess peer _ => peer
  | verifyBootstrapToken peer _ => peer
  | startMetering peer => peer
  | stopMetering peer => peer
  | disconnect peer => peer

end Tollgate
