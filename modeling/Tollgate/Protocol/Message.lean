import Mathlib

/-!
# Wire messages

The message types of `tollgate-protocol/src/message.rs` and the type tag that `codec.rs` peeks at.
Field order and widths follow the source: a byte array of fixed length is a `Vector`, a byte string
is a list of bytes, and an optional field is an `Option`.

The messages are put on the wire by the derived implementations of the external `minicbor` crate.
They enter the model as the parameter `Minicbor`: one encoder and one decoder for each message, and
the decoder of the one-field header behind `peekType`. A decoder returns `none` where the derived
one returns an error. What a result needs of them is a hypothesis of that result.
-/

set_option autoImplicit false
set_option relaxedAutoImplicit false

namespace Tollgate

/-- A message body, or any other run of bytes. -/
abbrev Bytes := List UInt8

/-- A raw compressed public key. -/
abbrev PublicKey := Vector UInt8 33

/-- A product or option fingerprint. -/
abbrev Digest := Vector UInt8 32

/-! ### Message types and reasons -/

/-- The message types of the protocol, named as in the source. -/
inductive MessageType
  | announce | priceSheet | accept | channelReady | meteringReport | balanceUpdate | balanceAck
  | bootstrapToken | bootstrapAck | rolloverInit | rolloverReady | channelClose | closeAck
  | reject | disconnect
  deriving DecidableEq, Repr

namespace MessageType

/-- The value carried at field key `0`. -/
def asU8 : MessageType → UInt8
  | announce => 0x00
  | priceSheet => 0x01
  | accept => 0x02
  | channelReady => 0x03
  | meteringReport => 0x04
  | balanceUpdate => 0x05
  | balanceAck => 0x06
  | bootstrapToken => 0x07
  | bootstrapAck => 0x08
  | rolloverInit => 0x09
  | rolloverReady => 0x0A
  | channelClose => 0x0B
  | closeAck => 0x0C
  | reject => 0x0D
  | disconnect => 0x0E

/-- The message type of a tag, if the tag is known. -/
def fromU8 (value : UInt8) : Option MessageType :=
  match value.toNat with
  | 0x00 => some announce
  | 0x01 => some priceSheet
  | 0x02 => some accept
  | 0x03 => some channelReady
  | 0x04 => some meteringReport
  | 0x05 => some balanceUpdate
  | 0x06 => some balanceAck
  | 0x07 => some bootstrapToken
  | 0x08 => some bootstrapAck
  | 0x09 => some rolloverInit
  | 0x0A => some rolloverReady
  | 0x0B => some channelClose
  | 0x0C => some closeAck
  | 0x0D => some reject
  | 0x0E => some disconnect
  | _ => none

/-- Tags identify their types. -/
@[simp] theorem fromU8_asU8 (type : MessageType) : fromU8 type.asU8 = some type := by
  cases type <;> rfl

end MessageType

/-- The reason codes shared by `Reject` and `Disconnect`. -/
inductive RejectReason
  | priceTooHigh | mintNotAccepted | unitNotAccepted | meteringIntervalOutOfRange
  | channelFundingInvalid | balanceVerificationFailed | transitLossToleranceExceeded
  | productChangedRenegotiationRequired | protocolVersionUnsupported | other
  deriving DecidableEq, Repr

namespace RejectReason

/-- The value carried on the wire. -/
def asU8 : RejectReason → UInt8
  | priceTooHigh => 0x01
  | mintNotAccepted => 0x02
  | unitNotAccepted => 0x03
  | meteringIntervalOutOfRange => 0x04
  | channelFundingInvalid => 0x05
  | balanceVerificationFailed => 0x06
  | transitLossToleranceExceeded => 0x07
  | productChangedRenegotiationRequired => 0x08
  | protocolVersionUnsupported => 0x09
  | other => 0xFF

/-- The reason of a code, if the code is known. -/
def fromU8 (value : UInt8) : Option RejectReason :=
  match value.toNat with
  | 0x01 => some priceTooHigh
  | 0x02 => some mintNotAccepted
  | 0x03 => some unitNotAccepted
  | 0x04 => some meteringIntervalOutOfRange
  | 0x05 => some channelFundingInvalid
  | 0x06 => some balanceVerificationFailed
  | 0x07 => some transitLossToleranceExceeded
  | 0x08 => some productChangedRenegotiationRequired
  | 0x09 => some protocolVersionUnsupported
  | 0xFF => some other
  | _ => none

@[simp] theorem fromU8_asU8 (reason : RejectReason) : fromU8 reason.asU8 = some reason := by
  cases reason <;> rfl

end RejectReason

/-! ### Messages -/

structure MeteringReport where
  typeTag : UInt8
  elapsedMs : UInt64
  delivered : UInt64
  received : UInt64
  newProductId : Option Digest
  deriving DecidableEq, Repr

def MeteringReport.new (elapsedMs delivered received : UInt64) : MeteringReport where
  typeTag := MessageType.meteringReport.asU8
  elapsedMs := elapsedMs
  delivered := delivered
  received := received
  newProductId := none

/-- The protocol version carried in field 1 of an `Announce`. -/
def protocolVersion : UInt8 := 1

structure Announce where
  typeTag : UInt8
  version : UInt8
  pubkey : PublicKey
  unit : String
  capabilities : UInt32
  deriving DecidableEq, Repr

def Announce.new (version : UInt8) (pubkey : PublicKey) (unit : String) (capabilities : UInt32) :
    Announce where
  typeTag := MessageType.announce.asU8
  version := version
  pubkey := pubkey
  unit := unit
  capabilities := capabilities

structure BootstrapToken where
  typeTag : UInt8
  token : Bytes
  deriving DecidableEq, Repr

def BootstrapToken.new (token : Bytes) : BootstrapToken where
  typeTag := MessageType.bootstrapToken.asU8
  token := token

structure BootstrapAck where
  typeTag : UInt8
  status : UInt8
  reason : Option String
  deriving DecidableEq, Repr

namespace BootstrapAck

def statusAccepted : UInt8 := 0

def statusRejected : UInt8 := 1

def accepted : BootstrapAck where
  typeTag := MessageType.bootstrapAck.asU8
  status := statusAccepted
  reason := none

def rejected (reason : String) : BootstrapAck where
  typeTag := MessageType.bootstrapAck.asU8
  status := statusRejected
  reason := some reason

def isAccepted (ack : BootstrapAck) : Bool :=
  ack.status == statusAccepted

end BootstrapAck

structure Reject where
  typeTag : UInt8
  rejectedType : UInt8
  reasonCode : UInt8
  reasonText : Option String
  deriving DecidableEq, Repr

namespace Reject

def new (rejectedType : MessageType) (reason : RejectReason) : Reject where
  typeTag := MessageType.reject.asU8
  rejectedType := rejectedType.asU8
  reasonCode := reason.asU8
  reasonText := none

/-- Attach an explanation. -/
def withReasonText (message : Reject) (text : String) : Reject :=
  { message with reasonText := some text }

def reason (message : Reject) : Option RejectReason :=
  RejectReason.fromU8 message.reasonCode

/-- The transit-loss warning. -/
def isTransitLoss (message : Reject) : Bool :=
  message.reason == some .transitLossToleranceExceeded

/-- The cut-off for a spent balance. -/
def isBalanceExhausted (message : Reject) : Bool :=
  message.reason == some .balanceVerificationFailed

end Reject

structure Disconnect where
  typeTag : UInt8
  reasonCode : UInt8
  deriving DecidableEq, Repr

def Disconnect.new (reason : RejectReason) : Disconnect where
  typeTag := MessageType.disconnect.asU8
  reasonCode := reason.asU8

structure IntervalRange where
  minMs : UInt32
  maxMs : UInt32
  deriving DecidableEq, Repr

structure MintOption where
  optionId : Digest
  mintUrl : String
  pricePerSecond : Int64
  pricePerUnit : Int64
  mintUnit : String
  deriving DecidableEq, Repr

structure ProductEntry where
  productId : Digest
  extensions : Bytes
  pricingScale : UInt32
  mintOptions : List MintOption
  deriving DecidableEq, Repr

structure PriceSheet where
  typeTag : UInt8
  products : List ProductEntry
  interval : IntervalRange
  deriving DecidableEq, Repr

def PriceSheet.new (products : List ProductEntry) (interval : IntervalRange) : PriceSheet where
  typeTag := MessageType.priceSheet.asU8
  products := products
  interval := interval

structure Accept where
  typeTag : UInt8
  productId : Digest
  optionId : Digest
  interval : IntervalRange
  channelFunding : Bytes
  deriving DecidableEq, Repr

def Accept.new (productId optionId : Digest) (interval : IntervalRange) (channelFunding : Bytes) :
    Accept where
  typeTag := MessageType.accept.asU8
  productId := productId
  optionId := optionId
  interval := interval
  channelFunding := channelFunding

/-! ### The external codec -/

/-- The encoders and decoders that `minicbor` derives. -/
structure Minicbor where
  decodeHeader : Bytes → Option UInt8
  encodeMeteringReport : MeteringReport → Bytes
  decodeMeteringReport : Bytes → Option MeteringReport
  encodeAnnounce : Announce → Bytes
  decodeAnnounce : Bytes → Option Announce
  encodeBootstrapToken : BootstrapToken → Bytes
  decodeBootstrapToken : Bytes → Option BootstrapToken
  encodeBootstrapAck : BootstrapAck → Bytes
  decodeBootstrapAck : Bytes → Option BootstrapAck
  encodeReject : Reject → Bytes
  decodeReject : Bytes → Option Reject
  encodeDisconnect : Disconnect → Bytes
  decodeDisconnect : Bytes → Option Disconnect
  encodePriceSheet : PriceSheet → Bytes
  decodePriceSheet : Bytes → Option PriceSheet
  encodeAccept : Accept → Bytes
  decodeAccept : Bytes → Option Accept

/-- The type of an encoded message, read without decoding its body. -/
def Minicbor.peekType (cbor : Minicbor) (message : Bytes) : Option MessageType :=
  (cbor.decodeHeader message).bind MessageType.fromU8

/-- What the code relies on of the derived codec: the header of a message is its tag, and a message
decodes to what was encoded. Stated for the messages that are built here and read back. -/
structure Minicbor.Lawful (cbor : Minicbor) : Prop where
  header_meteringReport : ∀ elapsedMs delivered received,
    cbor.decodeHeader
        (cbor.encodeMeteringReport (MeteringReport.new elapsedMs delivered received)) =
      some MessageType.meteringReport.asU8
  decode_meteringReport : ∀ elapsedMs delivered received,
    cbor.decodeMeteringReport
        (cbor.encodeMeteringReport (MeteringReport.new elapsedMs delivered received)) =
      some (MeteringReport.new elapsedMs delivered received)
  header_reject : ∀ type reason,
    cbor.decodeHeader (cbor.encodeReject (Reject.new type reason)) =
      some MessageType.reject.asU8
  decode_reject : ∀ type reason,
    cbor.decodeReject (cbor.encodeReject (Reject.new type reason)) =
      some (Reject.new type reason)

theorem Minicbor.Lawful.peekType_meteringReport {cbor : Minicbor} (hlawful : cbor.Lawful)
    (elapsedMs delivered received : UInt64) :
    cbor.peekType (cbor.encodeMeteringReport (MeteringReport.new elapsedMs delivered received)) =
      some .meteringReport := by
  rw [peekType, hlawful.header_meteringReport, Option.bind_some, MessageType.fromU8_asU8]

theorem Minicbor.Lawful.peekType_reject {cbor : Minicbor} (hlawful : cbor.Lawful)
    (type : MessageType) (reason : RejectReason) :
    cbor.peekType (cbor.encodeReject (Reject.new type reason)) = some .reject := by
  rw [peekType, hlawful.header_reject, Option.bind_some, MessageType.fromU8_asU8]

end Tollgate
