import Tollgate.Library.Cbor
import Tollgate.Protocol.Message

/-!
# A codec in the shape of the derived one

`Minicbor.derived` writes and reads the messages as the derived implementations are documented to:
maps with integer keys in field order, absent optional fields left out, unknown keys skipped,
arrays by position, bytes after the first item ignored. It gives the parameter `Minicbor` a value
on which concrete runs can be evaluated; results that hold for every codec do not use it.
-/

set_option autoImplicit false
set_option relaxedAutoImplicit false

namespace Tollgate

open Cbor

namespace Derived

/-! ### Field values -/

def writeU8 (n : UInt8) : Bytes := writeUnsigned n.toNat

def writeU32 (n : UInt32) : Bytes := writeUnsigned n.toNat

def writeU64 (n : UInt64) : Bytes := writeUnsigned n.toNat

def writeI64 (n : Int64) : Bytes := writeInt n.toInt

def writeVector {length : ℕ} (bytes : Vector UInt8 length) : Bytes := writeBytes bytes.toList

/-- A reader followed by a function of what it read. -/
def convert {α β : Type} (reader : Reader α) (f : α → Option β) : Reader β := fun bytes ↦
  (reader bytes).bind fun pair ↦ (f pair.1).map fun value ↦ (value, pair.2)

def readU8 : Reader UInt8 := convert (readUnsigned (2 ^ 8)) fun n ↦ some (UInt8.ofNat n)

def readU32 : Reader UInt32 := convert (readUnsigned (2 ^ 32)) fun n ↦ some (UInt32.ofNat n)

def readU64 : Reader UInt64 := convert (readUnsigned (2 ^ 64)) fun n ↦ some (UInt64.ofNat n)

def readI64 : Reader Int64 := convert readInt fun n ↦ some (Int64.ofInt n)

/-- A byte string of exactly the given length. -/
def readVector (length : ℕ) : Reader (Vector UInt8 length) :=
  convert readBytes fun bytes ↦
    if h : bytes.length = length then some ⟨bytes.toArray, by rw [List.size_toArray, h]⟩ else none

/-- The fields of an optional value: its key and its bytes, or nothing. -/
def optional {α : Type} (key : ℕ) (write : α → Bytes) : Option α → List (ℕ × Bytes)
  | some value => [(key, write value)]
  | none => []

/-- A record reader: the fields, put together by `build`. -/
def readFields {α : Type} (build : List (ℕ × Bytes) → Option α) : Reader α :=
  convert readRecord build

/-! ### Messages -/

def readHeader : Reader UInt8 := readFields fun fields ↦ field fields 0 readU8

def writeMeteringReport (report : MeteringReport) : Bytes :=
  writeRecord ([(0, writeU8 report.typeTag), (1, writeU64 report.elapsedMs),
    (2, writeU64 report.delivered), (3, writeU64 report.received)] ++
      optional 4 writeVector report.newProductId)

def readMeteringReport : Reader MeteringReport := readFields fun fields ↦ do
  let typeTag ← field fields 0 readU8
  let elapsedMs ← field fields 1 readU64
  let delivered ← field fields 2 readU64
  let received ← field fields 3 readU64
  let newProductId ← optionalField fields 4 (readVector 32)
  return { typeTag, elapsedMs, delivered, received, newProductId }

def writeAnnounce (announce : Announce) : Bytes :=
  writeRecord [(0, writeU8 announce.typeTag), (1, writeU8 announce.version),
    (2, writeVector announce.pubkey), (3, writeText announce.unit),
    (4, writeU32 announce.capabilities)]

def readAnnounce : Reader Announce := readFields fun fields ↦ do
  let typeTag ← field fields 0 readU8
  let version ← field fields 1 readU8
  let pubkey ← field fields 2 (readVector 33)
  let unit ← field fields 3 readText
  let capabilities ← field fields 4 readU32
  return { typeTag, version, pubkey, unit, capabilities }

def writeBootstrapToken (message : BootstrapToken) : Bytes :=
  writeRecord [(0, writeU8 message.typeTag), (1, writeBytes message.token)]

def readBootstrapToken : Reader BootstrapToken := readFields fun fields ↦ do
  let typeTag ← field fields 0 readU8
  let token ← field fields 1 readBytes
  return { typeTag, token }

def writeBootstrapAck (ack : BootstrapAck) : Bytes :=
  writeRecord ([(0, writeU8 ack.typeTag), (1, writeU8 ack.status)] ++
    optional 2 writeText ack.reason)

def readBootstrapAck : Reader BootstrapAck := readFields fun fields ↦ do
  let typeTag ← field fields 0 readU8
  let status ← field fields 1 readU8
  let reason ← optionalField fields 2 readText
  return { typeTag, status, reason }

def writeReject (message : Reject) : Bytes :=
  writeRecord ([(0, writeU8 message.typeTag), (1, writeU8 message.rejectedType),
    (2, writeU8 message.reasonCode)] ++ optional 3 writeText message.reasonText)

def readReject : Reader Reject := readFields fun fields ↦ do
  let typeTag ← field fields 0 readU8
  let rejectedType ← field fields 1 readU8
  let reasonCode ← field fields 2 readU8
  let reasonText ← optionalField fields 3 readText
  return { typeTag, rejectedType, reasonCode, reasonText }

def writeDisconnect (message : Disconnect) : Bytes :=
  writeRecord [(0, writeU8 message.typeTag), (1, writeU8 message.reasonCode)]

def readDisconnect : Reader Disconnect := readFields fun fields ↦ do
  let typeTag ← field fields 0 readU8
  let reasonCode ← field fields 1 readU8
  return { typeTag, reasonCode }

def writeIntervalRange (range : IntervalRange) : Bytes :=
  writeArray [writeU32 range.minMs, writeU32 range.maxMs]

def readIntervalRange : Reader IntervalRange := fun bytes ↦
  match readHead bytes with
  | some (4, n, rest) =>
    if n < 2 then none
    else
      (readU32 rest).bind fun minMs ↦
        (readU32 minMs.2).bind fun maxMs ↦
          -- Items behind the known positions are skipped.
          (skipItems maxMs.2.length (n - 2) maxMs.2).map fun rest ↦ (⟨minMs.1, maxMs.1⟩, rest)
  | _ => none

def writeMintOption (option : MintOption) : Bytes :=
  writeRecord [(1, writeVector option.optionId), (2, writeText option.mintUrl),
    (3, writeI64 option.pricePerSecond), (4, writeI64 option.pricePerUnit),
    (5, writeText option.mintUnit)]

def readMintOption : Reader MintOption := readFields fun fields ↦ do
  let optionId ← field fields 1 (readVector 32)
  let mintUrl ← field fields 2 readText
  let pricePerSecond ← field fields 3 readI64
  let pricePerUnit ← field fields 4 readI64
  let mintUnit ← field fields 5 readText
  return { optionId, mintUrl, pricePerSecond, pricePerUnit, mintUnit }

def writeProductEntry (product : ProductEntry) : Bytes :=
  writeRecord [(1, writeVector product.productId), (2, writeBytes product.extensions),
    (3, writeU32 product.pricingScale), (4, writeArray (product.mintOptions.map writeMintOption))]

def readProductEntry : Reader ProductEntry := readFields fun fields ↦ do
  let productId ← field fields 1 (readVector 32)
  let extensions ← field fields 2 readBytes
  let pricingScale ← field fields 3 readU32
  let mintOptions ← field fields 4 (readArray readMintOption)
  return { productId, extensions, pricingScale, mintOptions }

def writePriceSheet (sheet : PriceSheet) : Bytes :=
  writeRecord [(0, writeU8 sheet.typeTag),
    (1, writeArray (sheet.products.map writeProductEntry)),
    (2, writeIntervalRange sheet.interval)]

def readPriceSheet : Reader PriceSheet := readFields fun fields ↦ do
  let typeTag ← field fields 0 readU8
  let products ← field fields 1 (readArray readProductEntry)
  let interval ← field fields 2 readIntervalRange
  return { typeTag, products, interval }

def writeAccept (message : Accept) : Bytes :=
  writeRecord [(0, writeU8 message.typeTag), (1, writeVector message.productId),
    (2, writeVector message.optionId), (3, writeIntervalRange message.interval),
    (4, writeBytes message.channelFunding)]

def readAccept : Reader Accept := readFields fun fields ↦ do
  let typeTag ← field fields 0 readU8
  let productId ← field fields 1 (readVector 32)
  let optionId ← field fields 2 (readVector 32)
  let interval ← field fields 3 readIntervalRange
  let channelFunding ← field fields 4 readBytes
  return { typeTag, productId, optionId, interval, channelFunding }

end Derived

open Derived in
/-- The codec of records with integer keys. -/
def Minicbor.derived : Minicbor where
  decodeHeader := decode readHeader
  encodeMeteringReport := writeMeteringReport
  decodeMeteringReport := decode readMeteringReport
  encodeAnnounce := writeAnnounce
  decodeAnnounce := decode readAnnounce
  encodeBootstrapToken := writeBootstrapToken
  decodeBootstrapToken := decode readBootstrapToken
  encodeBootstrapAck := writeBootstrapAck
  decodeBootstrapAck := decode readBootstrapAck
  encodeReject := writeReject
  decodeReject := decode readReject
  encodeDisconnect := writeDisconnect
  decodeDisconnect := decode readDisconnect
  encodePriceSheet := writePriceSheet
  decodePriceSheet := decode readPriceSheet
  encodeAccept := writeAccept
  decodeAccept := decode readAccept

/-! ### Field values read back -/

namespace Derived

theorem reads_convert {α β : Type} {reader : Reader α} {f : α → Option β} {written : Bytes}
    {value : α} {result : β} (hreads : Reads reader written value)
    (hresult : f value = some result) :
    Reads (convert reader f) written result where
  spans := hreads.spans
  read rest := by
    rw [convert, hreads.read, Option.bind_some, hresult, Option.map_some]

theorem reads_u8 (n : UInt8) : Reads readU8 (writeU8 n) n :=
  reads_convert (Reads.unsigned (by omega) n.toNat_lt) (congrArg some UInt8.ofNat_toNat)

theorem reads_u32 (n : UInt32) : Reads readU32 (writeU32 n) n :=
  reads_convert (Reads.unsigned (by omega) n.toNat_lt) (congrArg some UInt32.ofNat_toNat)

theorem reads_u64 (n : UInt64) : Reads readU64 (writeU64 n) n :=
  reads_convert (Reads.unsigned le_rfl n.toNat_lt) (congrArg some UInt64.ofNat_toNat)

theorem reads_i64 (n : Int64) : Reads readI64 (writeI64 n) n :=
  reads_convert (Reads.int n.le_toInt n.toInt_lt) (congrArg some (Int64.ofInt_toInt n))

theorem reads_vector {length : ℕ} (hlength : length < 2 ^ 64) (bytes : Vector UInt8 length) :
    Reads (readVector length) (writeVector bytes) bytes := by
  have hsize : bytes.toList.length = length := Vector.length_toList
  refine reads_convert (Reads.bytes (hsize.symm ▸ hlength)) ?_
  rw [dif_pos hsize]
  rfl

theorem reads_intervalRange (range : IntervalRange) :
    Reads readIntervalRange (writeIntervalRange range) range where
  spans := by
    refine Spans.array (by simp) ?_
    simp [(reads_u32 range.minMs).spans, (reads_u32 range.maxMs).spans]
  read rest := by
    have hitems : [writeU32 range.minMs, writeU32 range.maxMs].flatten ++ rest =
        writeU32 range.minMs ++ (writeU32 range.maxMs ++ rest) := by
      simp
    rw [readIntervalRange, writeIntervalRange, writeArray, List.append_assoc,
      readHead_writeHead (by omega) (by simp), hitems]
    simp [(reads_u32 range.minMs).read, (reads_u32 range.maxMs).read, skipItems]

end Derived

end Tollgate
