import Tollgate.Core.Basic
import Tollgate.Library.Transducer

/-!
# The per-node session

`session.rs`: one `PeerSession` per peer in an ordered map, and `Session.handle`, which turns an
event into a new state and a list of actions. Each arm that works on a peer behind a mutable
borrow is `Session.getMut` of a function on that peer's entry, named after the arm; the arms that
insert or remove an entry do so on the map.

The charging arm of a meter sample is cut into the quantities it computes, in the order in which
it computes them: `ourDelivered`, `ourReceived`, `billable`, `newUnits`, `sampleCost`,
`balanceAfter`, `overTolerance`, `streakAfter`, `exhausted` and `cut`, each a function of the entry
before the sample. `PeerSession.chargeSample` assembles them.
-/

set_option autoImplicit false
set_option relaxedAutoImplicit false

namespace Tollgate

open Std

/-! ### One peer -/

/-- Where one peer relationship sits in its lifecycle. -/
inductive PeerPhase
  | new | bootstrapPending | active | suspended | closed
  deriving DecidableEq, Repr

/-- Per-peer bookkeeping. -/
structure PeerSession where
  phase : PeerPhase
  balance : UInt64
  lastCounters : Option Counters
  lastMeterAt : Millis
  meteringBaseline : Counters
  meteringStart : Millis
  peerReport : Option Counters
  billedUnits : UInt64
  overToleranceStreak : UInt8
  lastPriceSheet : Option PriceSheet
  acceptedProduct : Option Digest
  deriving DecidableEq

/-- How metering disagreement with a peer is reconciled. -/
structure MeteringPolicy where
  toleranceBps : UInt32
  maxStreak : UInt8
  deriving DecidableEq, Repr

/-- Five percent tolerance, suspension after three consecutive intervals beyond it. -/
def MeteringPolicy.default : MeteringPolicy := ⟨500, 3⟩

namespace PeerSession

def new : PeerSession where
  phase := .new
  balance := 0
  lastCounters := none
  lastMeterAt := 0
  meteringBaseline := Counters.default
  meteringStart := 0
  peerReport := none
  billedUnits := 0
  overToleranceStreak := 0
  lastPriceSheet := none
  acceptedProduct := none

/-- Start a metering session: usage, billing and drift all start from zero at this reading. -/
def resetMetering (entry : PeerSession) (counters : Counters) (now : Millis) : PeerSession :=
  { entry with
    lastCounters := some counters
    lastMeterAt := now
    meteringBaseline := counters
    meteringStart := now
    peerReport := none
    billedUnits := 0
    overToleranceStreak := 0 }

/-! ### The quantities of a charged sample -/

section Sample

variable (entry : PeerSession) (counters : Counters)

/-- Our tally of what we delivered since the baseline. -/
def ourDelivered : UInt64 :=
  counters.delivered.saturatingSub entry.meteringBaseline.delivered

theorem toNat_ourDelivered : (entry.ourDelivered counters).toNat =
    counters.delivered.toNat - entry.meteringBaseline.delivered.toNat :=
  UInt64.toNat_saturatingSub _ _

/-- Our tally of what we received since the baseline. -/
def ourReceived : UInt64 :=
  counters.received.saturatingSub entry.meteringBaseline.received

/-- The peer's tally of what it received from us, if it has reported one. -/
def peerReceived : Option UInt64 :=
  entry.peerReport.map Counters.received

/-- The reconciled figure: the higher of our tally and the peer's. -/
def billable : UInt64 :=
  match entry.peerReceived with
  | some theirs => reconcile (entry.ourDelivered counters) theirs
  | none => entry.ourDelivered counters

/-- The increment over what was billed at the previous sample. -/
def newUnits : UInt64 :=
  (entry.billable counters).saturatingSub entry.billedUnits

theorem toNat_newUnits : (entry.newUnits counters).toNat =
    (entry.billable counters).toNat - entry.billedUnits.toNat :=
  UInt64.toNat_saturatingSub _ _

/-- The cost of the sample: the time since the previous one and the increment. -/
def sampleCost (price : Price) (now : Millis) : Int64 :=
  price.costScaled (Millis.since now entry.lastMeterAt) (entry.newUnits counters)

/-- A cost as a charge: a negative cost charges nothing. -/
def chargeOf (cost : Int64) : UInt64 :=
  UInt64.ofNat cost.toInt.toNat

/-- A charge as a number: what the cost is above zero. -/
theorem toNat_chargeOf (cost : Int64) : (chargeOf cost).toNat = (max cost.toInt 0).toNat := by
  have hhigh := cost.toInt_lt
  have hfits : cost.toInt.toNat < 2 ^ 64 := by omega
  rw [chargeOf, UInt64.toNat_ofNat_of_lt' hfits]
  omega

/-- The balance left by the sample. -/
def balanceAfter (price : Price) (now : Millis) : UInt64 :=
  entry.balance.saturatingSub (chargeOf (entry.sampleCost counters price now))

theorem toNat_balanceAfter (price : Price) (now : Millis) :
    (entry.balanceAfter counters price now).toNat =
      entry.balance.toNat - (chargeOf (entry.sampleCost counters price now)).toNat :=
  UInt64.toNat_saturatingSub _ _

/-- Whether the peer's tally lies outside the tolerance around ours. -/
def overTolerance (policy : MeteringPolicy) : Bool :=
  match entry.peerReceived with
  | some theirs =>
    let ours := entry.ourDelivered counters
    decide (0 < ours) &&
      decide (ours.toNat * policy.toleranceBps.toNat < (ours.absDiff theirs).toNat * 10000)
  | none => false

/-- The drift streak after the sample; without a report on file it stays as it was. -/
def streakAfter (policy : MeteringPolicy) : UInt8 :=
  match entry.peerReceived with
  | some _ =>
    if entry.overTolerance counters policy then entry.overToleranceStreak.saturatingAdd 1 else 0
  | none => entry.overToleranceStreak

/-- The sample charged the peer and spent its credit. -/
def exhausted (price : Price) (now : Millis) : Bool :=
  decide (0 < entry.sampleCost counters price now) &&
    decide (entry.balanceAfter counters price now = 0)

/-- The sample suspends the peer: its credit is spent or its drift has persisted. -/
def cut (price : Price) (policy : MeteringPolicy) (now : Millis) : Bool :=
  entry.exhausted counters price now ||
    decide (policy.maxStreak ≤ entry.streakAfter counters policy)

/-- The report sent at the sample: usage cumulative since the baseline. -/
def usageReport (now : Millis) : MeteringReport :=
  MeteringReport.new (Millis.since now entry.meteringStart) (entry.ourDelivered counters)
    (entry.ourReceived counters)

end Sample

/-! ### The arms of `handle` on one entry -/

section Arms

variable (cbor : Minicbor) (peer : PeerId) (entry : PeerSession)

/-- A sample after the baseline: charge, check drift, report, and cut. -/
def chargeSample (price : Price) (policy : MeteringPolicy) (counters : Counters) (now : Millis) :
    PeerSession × List Action :=
  let warning :=
    if entry.overTolerance counters policy then
      [Action.send peer
        (cbor.encodeReject (Reject.new .meteringReport .transitLossToleranceExceeded))]
    else []
  let report := [Action.send peer (cbor.encodeMeteringReport (entry.usageReport counters now))]
  let reason :=
    if entry.exhausted counters price now then
      [Action.send peer
        (cbor.encodeReject (Reject.new .meteringReport .balanceVerificationFailed))]
    else []
  let suspension :=
    if entry.cut counters price policy now then
      reason ++ [Action.setAccess peer .suspended, Action.stopMetering peer]
    else []
  ({ entry with
      billedUnits := entry.billable counters
      lastCounters := some counters
      lastMeterAt := now
      balance := entry.balanceAfter counters price now
      overToleranceStreak := entry.streakAfter counters policy
      phase := if entry.cut counters price policy now then .suspended else entry.phase },
    warning ++ report ++ suspension)

/-- `Event::MeterSample`: only an active peer is metered, and the first reading after activation
establishes the baseline and charges nothing. -/
def meterSample (price : Price) (policy : MeteringPolicy) (counters : Counters) (now : Millis) :
    PeerSession × List Action :=
  if entry.phase = .active then
    match entry.lastCounters with
    | none => (entry.resetMetering counters now, [])
    | some _ => entry.chargeSample cbor peer price policy counters now
  else (entry, [])

/-- `Event::BootstrapVerified`: credit and admit, or refuse. -/
def bootstrapVerified (amount : UInt64) (ok : Bool) (now : Millis) : PeerSession × List Action :=
  if ok then
    let credited :=
      { entry with balance := entry.balance.saturatingAdd amount, phase := .active }
    (if entry.phase = .active then credited
      else { credited with lastCounters := none, lastMeterAt := now },
      [.send peer (cbor.encodeBootstrapAck BootstrapAck.accepted),
        .setAccess peer .active, .startMetering peer])
  else
    ({ entry with phase := .new },
      [.send peer (cbor.encodeBootstrapAck (BootstrapAck.rejected "token verification failed")),
        .setAccess peer .none])

/-- A `BootstrapToken` message: hand the token to the host for verification. -/
def receiveToken (message : BootstrapToken) : PeerSession × List Action :=
  ({ entry with phase := .bootstrapPending }, [.verifyBootstrapToken peer message.token])

/-- A `Reject` message: back to `new`, revoking what an active peer had. -/
def receiveReject : PeerSession × List Action :=
  if entry.phase = .closed then (entry, [])
  else ({ entry with phase := .new },
    if entry.phase = .active then [.setAccess peer .none, .stopMetering peer] else [])

/-- A `PriceSheet` message: keep the offer. -/
def receivePriceSheet (sheet : PriceSheet) : PeerSession × List Action :=
  ({ entry with lastPriceSheet := some sheet }, [])

/-- An `Accept` message: keep the accepted product. -/
def receiveAccept (message : Accept) : PeerSession × List Action :=
  ({ entry with acceptedProduct := some message.productId }, [])

/-- A `MeteringReport` message: keep the peer's tally for the next sample. -/
def receiveReport (report : MeteringReport) : PeerSession × List Action :=
  ({ entry with peerReport := some ⟨report.delivered, report.received⟩ }, [])

end Arms

end PeerSession

/-! ### The session -/

/-- One entry for each tracked peer, and the terms they are held to. -/
@[ext]
structure Session where
  peers : ExtTreeMap PeerId PeerSession
  price : Price
  policy : MeteringPolicy

namespace Session

def new : Session := ⟨∅, Price.default, MeteringPolicy.default⟩

def setPrice (session : Session) (price : Price) : Session :=
  { session with price := price }

def setMeteringPolicy (session : Session) (policy : MeteringPolicy) : Session :=
  { session with policy := policy }

/-- A mutable borrow of a tracked peer's entry; nothing happens for an unknown peer. -/
def getMut (session : Session) (peer : PeerId)
    (update : PeerSession → PeerSession × List Action) : Session × List Action :=
  match session.peers[peer]? with
  | some entry =>
    ({ session with peers := session.peers.insert peer (update entry).1 }, (update entry).2)
  | none => (session, [])

/-- Orderly teardown: revoke, stop metering and forget, whether or not the peer was tracked. -/
def remove (session : Session) (peer : PeerId) : Session × List Action :=
  ({ session with peers := session.peers.erase peer },
    [.setAccess peer .none, .stopMetering peer])

/-- `Event::MessageReceived`: dispatch on the peeked type, ignoring what does not decode. -/
def messageReceived (cbor : Minicbor) (session : Session) (peer : PeerId) (bytes : Bytes) :
    Session × List Action :=
  match cbor.peekType bytes with
  | some .bootstrapToken =>
    match cbor.decodeBootstrapToken bytes with
    | some message => session.getMut peer fun entry ↦ entry.receiveToken peer message
    | none => (session, [])
  | some .reject =>
    match cbor.decodeReject bytes with
    | some _ => session.getMut peer fun entry ↦ entry.receiveReject peer
    | none => (session, [])
  | some .disconnect =>
    match cbor.decodeDisconnect bytes with
    | some _ => session.remove peer
    | none => (session, [])
  | some .priceSheet =>
    match cbor.decodePriceSheet bytes with
    | some sheet => session.getMut peer fun entry ↦ entry.receivePriceSheet sheet
    | none => (session, [])
  | some .accept =>
    match cbor.decodeAccept bytes with
    | some message => session.getMut peer fun entry ↦ entry.receiveAccept message
    | none => (session, [])
  | some .meteringReport =>
    match cbor.decodeMeteringReport bytes with
    | some report => session.getMut peer fun entry ↦ entry.receiveReport report
    | none => (session, [])
  | _ => (session, [])

/-- Drive the state machine with one event at the host's time `now`. -/
def handle (cbor : Minicbor) (session : Session) (event : Event) (now : Millis) :
    Session × List Action :=
  match event with
  | .peerConnected peer =>
    -- A re-announce of a known peer changes nothing.
    match session.peers[peer]? with
    | none =>
      ({ session with peers := session.peers.insert peer PeerSession.new },
        [.setAccess peer .none])
    | some _ => (session, [])
  | .messageReceived peer bytes => session.messageReceived cbor peer bytes
  | .bootstrapVerified peer amount ok =>
    session.getMut peer fun entry ↦ entry.bootstrapVerified cbor peer amount ok now
  | .meterSample peer counters =>
    session.getMut peer fun entry ↦
      entry.meterSample cbor peer session.price session.policy counters now
  | .peerDisconnected peer => session.remove peer
  | .tick => (session, [])

def peerCount (session : Session) : ℕ :=
  session.peers.size

def peerPhase (session : Session) (peer : PeerId) : Option PeerPhase :=
  session.peers[peer]?.map PeerSession.phase

end Session

/-- An immutable view of one peer's state. The source keeps `drift` as a floating-point fraction;
here it is the exact fraction that division rounds. -/
structure PeerSnapshot where
  peer : PeerId
  phase : PeerPhase
  balance : Int64
  delivered : UInt64
  received : UInt64
  meteringStart : Option Millis
  drift : Option ℚ

/-- The view of one entry: usage counts from the baseline and is zero before it. -/
def PeerSession.snapshot (entry : PeerSession) (peer : PeerId) : PeerSnapshot :=
  let delivered := match entry.lastCounters with
    | some counters => entry.ourDelivered counters
    | none => 0
  let received := match entry.lastCounters with
    | some counters => entry.ourReceived counters
    | none => 0
  { peer := peer
    phase := entry.phase
    balance := entry.balance.toInt64
    delivered := delivered
    received := received
    meteringStart := entry.lastCounters.map fun _ ↦ entry.meteringStart
    drift := match entry.peerReport with
      | some report =>
        if 0 < delivered then
          some ((delivered.absDiff report.received).toNat / delivered.toNat)
        else none
      | none => none }

/-- Every tracked peer's view, in the order of the keys. -/
def Session.snapshot (session : Session) : List PeerSnapshot :=
  session.peers.toList.map fun pair ↦ pair.2.snapshot pair.1

/-- The session as a machine over timed events. -/
def Session.machine (cbor : Minicbor) : Transducer Session (Event × Millis) Action where
  step session input := session.handle cbor input.1 input.2

/-- The session a host starts from: a new one, given its price and its policy. -/
def Session.start (price : Price) (policy : MeteringPolicy) : Session :=
  (Session.new.setPrice price).setMeteringPolicy policy

end Tollgate
