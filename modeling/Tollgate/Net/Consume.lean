import Tollgate.Protocol.RoundTrip
import Tollgate.Core.Session

/-!
# The consumer

`client.rs`: the loop that pays a peer, polls it for metering reports and tops up before the balance
runs out. The loop is cut where it waits for an exchange: `payRequest` and `pollRequest` are the
bodies it sends, `afterPay` and `afterPoll` what it does with the bodies that come back. A meter,
when there is one, is read through its raw count.
-/

set_option autoImplicit false
set_option relaxedAutoImplicit false

namespace Tollgate

/-- The balance is kept in thousandths of the mint's unit. -/
def pricingScale : UInt64 := 1000

/-! ### Reading a response -/

section Messages

variable (cbor : Minicbor) (messages : List Bytes)

/-- The bodies of a given type. -/
def ofType (type : MessageType) : List Bytes :=
  messages.filter fun message ↦ decide (cbor.peekType message = some type)

/-- The first peer announce in a set of message bodies. -/
def findAnnounce : Option Announce :=
  (ofType cbor messages .announce).findSome? cbor.decodeAnnounce

/-- The first price sheet in a set of message bodies. -/
def findPriceSheet : Option PriceSheet :=
  (ofType cbor messages .priceSheet).findSome? cbor.decodePriceSheet

/-- The first metering report in a set of message bodies. -/
def findMeteringReport : Option MeteringReport :=
  (ofType cbor messages .meteringReport).findSome? cbor.decodeMeteringReport

/-- Whether a balance-exhausted rejection is in a set of message bodies. -/
def balanceExhausted : Bool :=
  ((ofType cbor messages .reject).filterMap cbor.decodeReject).any Reject.isBalanceExhausted

end Messages

/-- The price a peer charges: the first mint option of its first product, zero without one. -/
def priceFromSheet (sheet : Option PriceSheet) : Price :=
  ((sheet.bind fun sheet ↦ sheet.products.head?).bind fun product ↦
      product.mintOptions.head?).elim Price.default
    fun option ↦ ⟨option.pricePerSecond, option.pricePerUnit⟩

/-! ### The loop -/

/-- The options of the loop that decide what it sends. `metered` says whether it has a meter of its
own, by interface or by next hop. -/
structure ConsumeOpts where
  amountSat : UInt64
  topupSat : UInt64
  understateReceivedPct : UInt8
  metered : Bool
  deriving DecidableEq, Repr

/-- The variables of the loop. -/
structure Consumer where
  price : Price
  paidScaled : UInt64
  ackedReceived : UInt64
  meterBaseline : UInt64
  deriving DecidableEq, Repr

/-- What the loop found out in one poll. -/
structure PollOutcome where
  cutOff : Bool
  report : Option MeteringReport
  measured : Option UInt64
  cost : Int64
  topUp : Bool
  deriving DecidableEq, Repr

namespace Consumer

variable (cbor : Minicbor) (opts : ConsumeOpts)

/-- A top-up in the scale of the balance. -/
def topupScaled : UInt64 :=
  opts.topupSat.saturatingMul pricingScale

/-- The bodies of a payment: who we are, and the token. -/
def payRequest (announce : Announce) (token : Bytes) : List Bytes :=
  [cbor.encodeAnnounce announce, cbor.encodeBootstrapToken (BootstrapToken.new token)]

/-- Whether a payment was accepted; a response without the peer's announce or without an
acknowledgement is an error. -/
def paid (messages : List Bytes) : Option Bool :=
  (findAnnounce cbor messages).bind fun _ ↦
    ((ofType cbor messages .bootstrapAck).findSome? cbor.decodeBootstrapAck).map
      BootstrapAck.isAccepted

/-- The loop's variables after the initial payment, with the meter at `raw`. -/
def start (messages : List Bytes) (raw : UInt64) : Consumer where
  price := priceFromSheet (findPriceSheet cbor messages)
  paidScaled := opts.amountSat.saturatingMul pricingScale
  ackedReceived := 0
  meterBaseline := raw

/-- The bodies of a poll: who we are, and what we acknowledge having received. -/
def pollRequest (announce : Announce) (consumer : Consumer) : List Bytes :=
  cbor.encodeAnnounce announce ::
    if 0 < consumer.ackedReceived then
      [cbor.encodeMeteringReport (MeteringReport.new 0 0 consumer.ackedReceived)]
    else []

/-- The share of its count that the consumer acknowledges. -/
def acknowledged (received : UInt64) : UInt64 :=
  let keep := UInt64.saturatingSub 100 (min opts.understateReceivedPct 100).toUInt64
  received.saturatingMul keep / 100

/-- What the consumer reckons it owes for the session reported: on the higher of the provider's
count and its own, and nothing without a report. -/
def costOf (price : Price) (report : Option MeteringReport) (measured : Option UInt64) : Int64 :=
  match report with
  | some report =>
    let billable := measured.elim report.delivered fun own ↦ max report.delivered own
    price.costScaled report.elapsedMs billable
  | none => 0

/-- Subtraction of signed words that stops at the ends of the type. -/
def saturatingSubSigned (a b : Int64) : Int64 :=
  Int64.clampOfInt (a.toInt - b.toInt)

/-- The response of a poll, with the meter at `raw`: restart after a cut-off, note what to
acknowledge next, and decide on a top-up. -/
def afterPoll (consumer : Consumer) (messages : List Bytes) (raw : UInt64) :
    Consumer × PollOutcome :=
  let cutOff := balanceExhausted cbor messages
  let restarted :=
    if cutOff then { consumer with ackedReceived := 0, meterBaseline := raw } else consumer
  let report := findMeteringReport cbor messages
  let measured := if opts.metered then some (raw.saturatingSub restarted.meterBaseline) else none
  let counted := measured.or (report.map MeteringReport.delivered)
  let acked := counted.elim restarted.ackedReceived (acknowledged opts)
  let cost := costOf consumer.price report measured
  let remaining := saturatingSubSigned consumer.paidScaled.toInt64 cost
  ({ restarted with ackedReceived := acked },
    { cutOff := cutOff
      report := report
      measured := measured
      cost := cost
      topUp := cutOff || decide (remaining < (topupScaled opts).toInt64) })

/-- An accepted top-up: a fresh account after a cut-off, an addition otherwise. -/
def afterTopUp (consumer : Consumer) (cutOff accepted : Bool) : Consumer :=
  if accepted then
    { consumer with
      paidScaled :=
        if cutOff then topupScaled opts
        else consumer.paidScaled.saturatingAdd (topupScaled opts) }
  else consumer

end Consumer

end Tollgate
