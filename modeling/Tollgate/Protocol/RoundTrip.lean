import Tollgate.Protocol.Derived

/-!
# Messages read back

What is assumed of the derived codec is its documented format (`Minicbor.Derives`): a message is
written as a map from the numbers of its fields to their values, in field order and without the
absent ones; from such a map a decoder takes its fields by number, arrays by position, and skips
what it does not know. Nothing is assumed about decoding what was encoded.

From the format, every message reads back, and its header is its tag (`Message.decodeAs_encode`,
`Message.peekType_encode`). The header decoder knows one field and has to skip all the others, so
both rest on the values of a record being single items, whatever they hold.
-/

set_option autoImplicit false
set_option relaxedAutoImplicit false

namespace Tollgate

open Cbor

/-! ### Lengths

The lengths of strings and vectors are machine words, and are written as such. -/

/-- The bytes of a string number less than a machine word. -/
def textFits (text : String) : Prop :=
  text.toByteArray.data.toList.length < 2 ^ 64

instance decidableTextFits (text : String) : Decidable (textFits text) :=
  inferInstanceAs (Decidable (_ < _))

def MintOption.Fits (option : MintOption) : Prop :=
  textFits option.mintUrl ∧ textFits option.mintUnit

instance MintOption.decidableFits (option : MintOption) : Decidable option.Fits :=
  inferInstanceAs (Decidable (_ ∧ _))

def ProductEntry.Fits (product : ProductEntry) : Prop :=
  product.extensions.length < 2 ^ 64 ∧ product.mintOptions.length < 2 ^ 64 ∧
    ∀ option ∈ product.mintOptions, option.Fits

instance ProductEntry.decidableFits (product : ProductEntry) : Decidable product.Fits :=
  inferInstanceAs (Decidable (_ ∧ _))

/-! ### The format -/

/-- Fields that make a map: distinct small numbers, and a single item behind each. -/
structure WellFormed (fields : List (ℕ × Bytes)) : Prop where
  length : fields.length < 2 ^ 64
  keys : ∀ field ∈ fields, field.1 < 2 ^ 63
  distinct : (fields.map Prod.fst).Nodup
  values : ∀ field ∈ fields, Spans 1 field.2

open Derived in
/-- The documented format of the derived codec. Decoders are described on maps of distinct keys
only, in any order and with any further keys. -/
structure Minicbor.Derives (cbor : Minicbor) : Prop where
  encode_meteringReport : ∀ message, cbor.encodeMeteringReport message = writeMeteringReport message
  encode_announce : ∀ message, cbor.encodeAnnounce message = writeAnnounce message
  encode_bootstrapToken : ∀ message, cbor.encodeBootstrapToken message = writeBootstrapToken message
  encode_bootstrapAck : ∀ message, cbor.encodeBootstrapAck message = writeBootstrapAck message
  encode_reject : ∀ message, cbor.encodeReject message = writeReject message
  encode_disconnect : ∀ message, cbor.encodeDisconnect message = writeDisconnect message
  encode_priceSheet : ∀ message, cbor.encodePriceSheet message = writePriceSheet message
  encode_accept : ∀ message, cbor.encodeAccept message = writeAccept message
  decode_header : ∀ fields, WellFormed fields →
    cbor.decodeHeader (writeRecord fields) = decode readHeader (writeRecord fields)
  decode_meteringReport : ∀ fields, WellFormed fields →
    cbor.decodeMeteringReport (writeRecord fields) = decode readMeteringReport (writeRecord fields)
  decode_announce : ∀ fields, WellFormed fields →
    cbor.decodeAnnounce (writeRecord fields) = decode readAnnounce (writeRecord fields)
  decode_bootstrapToken : ∀ fields, WellFormed fields →
    cbor.decodeBootstrapToken (writeRecord fields) = decode readBootstrapToken (writeRecord fields)
  decode_bootstrapAck : ∀ fields, WellFormed fields →
    cbor.decodeBootstrapAck (writeRecord fields) = decode readBootstrapAck (writeRecord fields)
  decode_reject : ∀ fields, WellFormed fields →
    cbor.decodeReject (writeRecord fields) = decode readReject (writeRecord fields)
  decode_disconnect : ∀ fields, WellFormed fields →
    cbor.decodeDisconnect (writeRecord fields) = decode readDisconnect (writeRecord fields)
  decode_priceSheet : ∀ fields, WellFormed fields →
    cbor.decodePriceSheet (writeRecord fields) = decode readPriceSheet (writeRecord fields)
  decode_accept : ∀ fields, WellFormed fields →
    cbor.decodeAccept (writeRecord fields) = decode readAccept (writeRecord fields)

/-- The codec in the shape of the derived one has its format. -/
theorem Minicbor.derived_derives : Minicbor.derived.Derives := by
  constructor <;> intros <;> rfl

/-! ### Records -/

namespace Derived

/-- A record of well-formed fields reads as what is built from them. -/
theorem reads_record {α : Type} {build : List (ℕ × Bytes) → Option α}
    {fields : List (ℕ × Bytes)} {value : α} (hfields : WellFormed fields)
    (hbuild : build fields = some value) : Reads (readFields build) (writeRecord fields) value := by
  have hkeys : ∀ field ∈ fields, field.1 < 2 ^ 64 := fun field hfield ↦
    (hfields.keys field hfield).trans (by omega)
  exact reads_convert (Reads.record hfields.length hkeys hfields.values) hbuild

/-- The bytes are a record that reads as `value` and whose tag is `tag`. -/
structure Carries {α : Type} (reader : Reader α) (bytes : Bytes) (tag : UInt8) (value : α) :
    Prop where
  record : ∃ fields, WellFormed fields ∧ bytes = writeRecord fields
  value : decode reader bytes = some value
  tag : decode readHeader bytes = some tag

/-- A record with a tag at key `0` carries what is built from its fields. -/
theorem carries_record {α : Type} {build : List (ℕ × Bytes) → Option α}
    {fields : List (ℕ × Bytes)} {tag : UInt8} {value : α} (hfields : WellFormed fields)
    (htag : fields.reverse.lookup 0 = some (writeU8 tag)) (hbuild : build fields = some value) :
    Carries (readFields build) (writeRecord fields) tag value where
  record := ⟨fields, hfields, rfl⟩
  value := (reads_record hfields hbuild).decode
  tag := (reads_record hfields ((reads_u8 tag).field htag)).decode

/-! ### An optional field at the end -/

section Optional

variable {α β : Type} {fields : List (ℕ × Bytes)} {key : ℕ} {write : α → Bytes} {value : Option α}
variable (hnew : ∀ field ∈ fields, field.1 ≠ key)

/-- The other fields are read as if the optional one were not there. -/
theorem field_append_optional {other : ℕ} (hother : other ≠ key) (reader : Reader β) :
    field (fields ++ optional key write value) other reader = field fields other reader := by
  cases value with
  | none => rw [optional, List.append_nil]
  | some present =>
    rw [field, field, optional, List.reverse_append, List.reverse_singleton, List.singleton_append,
      List.lookup_cons, beq_false_of_ne hother]

include hnew

/-- Assumes: a number that no other field has, and a reader that does not take null. The optional
field is read as it was, present or absent. -/
theorem optionalField_append_optional {reader : Reader α} (hnull : reader [0xf6] = none)
    (hvalue : ∀ present ∈ value, Reads reader (write present) present) :
    optionalField (fields ++ optional key write value) key reader = some value := by
  cases value with
  | none =>
    have habsent : fields.reverse.lookup key = none := by
      rw [List.lookup_eq_none_iff]
      intro field hfield
      exact bne_iff_ne.mpr (hnew field (List.mem_reverse.mp hfield)).symm
    rw [optional, List.append_nil, optionalField, habsent]
  | some present =>
    refine (hvalue present rfl).optionalField hnull ?_
    rw [optional, List.reverse_append, List.reverse_singleton, List.singleton_append,
      List.lookup_cons, beq_self_eq_true]

/-- The fields stay well-formed with the optional one. -/
theorem wellFormed_append_optional (hfields : WellFormed fields) (hlength : fields.length < 2 ^ 63)
    (hkey : key < 2 ^ 63) (hvalue : ∀ present ∈ value, Spans 1 (write present)) :
    WellFormed (fields ++ optional key write value) := by
  cases value with
  | none =>
    rw [optional, List.append_nil]
    exact hfields
  | some present =>
    refine ⟨?_, ?_, ?_, ?_⟩
    · rw [optional, List.length_append, List.length_singleton]
      omega
    · exact List.forall_mem_append.mpr
        ⟨hfields.keys, List.forall_mem_singleton.mpr hkey⟩
    · rw [optional, List.map_append, List.nodup_append]
      refine ⟨hfields.distinct, List.nodup_singleton _, ?_⟩
      simpa [List.forall_mem_map] using hnew
    · exact List.forall_mem_append.mpr
        ⟨hfields.values, List.forall_mem_singleton.mpr (hvalue present rfl)⟩

end Optional

/-! ### The messages -/

theorem reads_mintOption {option : MintOption} (hfits : option.Fits) :
    Reads readMintOption (writeMintOption option) option := by
  have hid := reads_vector (by omega) option.optionId
  have hurl := Reads.text hfits.1
  have hsecond := reads_i64 option.pricePerSecond
  have hunit := reads_i64 option.pricePerUnit
  have hcurrency := Reads.text hfits.2
  refine reads_record ⟨by simp, by simp, by simp, ?_⟩ ?_
  · simp [hid.spans, hurl.spans, hsecond.spans, hunit.spans, hcurrency.spans]
  · simp [field, List.lookup, hid.decode, hurl.decode, hsecond.decode, hunit.decode,
      hcurrency.decode]

theorem reads_productEntry {product : ProductEntry} (hfits : product.Fits) :
    Reads readProductEntry (writeProductEntry product) product := by
  have hid := reads_vector (by omega) product.productId
  have hextensions := Reads.bytes hfits.1
  have hscale := reads_u32 product.pricingScale
  have hoptions : Reads (readArray readMintOption)
      (writeArray (product.mintOptions.map writeMintOption)) product.mintOptions :=
    Reads.array hfits.2.1 fun option hoption ↦ reads_mintOption (hfits.2.2 option hoption)
  refine reads_record ⟨by simp, by simp, by simp, ?_⟩ ?_
  · simp [hid.spans, hextensions.spans, hscale.spans, hoptions.spans]
  · simp [field, List.lookup, hid.decode, hextensions.decode, hscale.decode, hoptions.decode]

theorem carries_announce {announce : Announce} (hunit : textFits announce.unit) :
    Carries readAnnounce (writeAnnounce announce) announce.typeTag announce := by
  have htag := reads_u8 announce.typeTag
  have hversion := reads_u8 announce.version
  have hpubkey := reads_vector (by omega) announce.pubkey
  have htext := Reads.text hunit
  have hcapabilities := reads_u32 announce.capabilities
  refine carries_record ⟨by simp, by simp, by simp, ?_⟩ rfl ?_
  · simp [htag.spans, hversion.spans, hpubkey.spans, htext.spans, hcapabilities.spans]
  · simp [field, List.lookup, htag.decode, hversion.decode, hpubkey.decode, htext.decode,
      hcapabilities.decode]

theorem carries_bootstrapToken {message : BootstrapToken} (htoken : message.token.length < 2 ^ 64) :
    Carries readBootstrapToken (writeBootstrapToken message) message.typeTag message := by
  have htag := reads_u8 message.typeTag
  have hbytes := Reads.bytes htoken
  refine carries_record ⟨by simp, by simp, by simp, ?_⟩ rfl ?_
  · simp [htag.spans, hbytes.spans]
  · simp [field, List.lookup, htag.decode, hbytes.decode]

theorem carries_disconnect (message : Disconnect) :
    Carries readDisconnect (writeDisconnect message) message.typeTag message := by
  have htag := reads_u8 message.typeTag
  have hreason := reads_u8 message.reasonCode
  refine carries_record ⟨by simp, by simp, by simp, ?_⟩ rfl ?_
  · simp [htag.spans, hreason.spans]
  · simp [field, List.lookup, htag.decode, hreason.decode]

theorem carries_priceSheet {sheet : PriceSheet} (hlength : sheet.products.length < 2 ^ 64)
    (hproducts : ∀ product ∈ sheet.products, product.Fits) :
    Carries readPriceSheet (writePriceSheet sheet) sheet.typeTag sheet := by
  have htag := reads_u8 sheet.typeTag
  have hentries : Reads (readArray readProductEntry)
      (writeArray (sheet.products.map writeProductEntry)) sheet.products :=
    Reads.array hlength fun product hproduct ↦ reads_productEntry (hproducts product hproduct)
  have hinterval := reads_intervalRange sheet.interval
  refine carries_record ⟨by simp, by simp, by simp, ?_⟩ rfl ?_
  · simp [htag.spans, hentries.spans, hinterval.spans]
  · simp [field, List.lookup, htag.decode, hentries.decode, hinterval.decode]

theorem carries_accept {message : Accept} (hfunding : message.channelFunding.length < 2 ^ 64) :
    Carries readAccept (writeAccept message) message.typeTag message := by
  have htag := reads_u8 message.typeTag
  have hproduct := reads_vector (by omega) message.productId
  have hoption := reads_vector (by omega) message.optionId
  have hinterval := reads_intervalRange message.interval
  have hbytes := Reads.bytes hfunding
  refine carries_record ⟨by simp, by simp, by simp, ?_⟩ rfl ?_
  · simp [htag.spans, hproduct.spans, hoption.spans, hinterval.spans, hbytes.spans]
  · simp [field, List.lookup, htag.decode, hproduct.decode, hoption.decode, hinterval.decode,
      hbytes.decode]

/-! Three messages end with an optional field, which is written only if it is there. -/

theorem carries_meteringReport (report : MeteringReport) :
    Carries readMeteringReport (writeMeteringReport report) report.typeTag report := by
  have htag := reads_u8 report.typeTag
  have helapsed := reads_u64 report.elapsedMs
  have hdelivered := reads_u64 report.delivered
  have hreceived := reads_u64 report.received
  have hid (id : Digest) := reads_vector (by omega) id
  refine carries_record (wellFormed_append_optional (by simp) ⟨by simp, by simp, by simp, ?_⟩
    (by simp) (by omega) fun id _ ↦ (hid id).spans) ?_ ?_
  · simp [htag.spans, helapsed.spans, hdelivered.spans, hreceived.spans]
  · cases report.newProductId <;> rfl
  · rw [optionalField_append_optional (by simp) (by rfl) fun id _ ↦ hid id]
    simp (disch := decide) only [field_append_optional]
    simp [field, List.lookup, htag.decode, helapsed.decode,
      hdelivered.decode, hreceived.decode]

theorem carries_bootstrapAck {ack : BootstrapAck} (hreason : ∀ text ∈ ack.reason, textFits text) :
    Carries readBootstrapAck (writeBootstrapAck ack) ack.typeTag ack := by
  have htag := reads_u8 ack.typeTag
  have hstatus := reads_u8 ack.status
  refine carries_record (wellFormed_append_optional (by simp) ⟨by simp, by simp, by simp, ?_⟩
    (by simp) (by omega) fun text htext ↦ (Reads.text (hreason text htext)).spans) ?_ ?_
  · simp [htag.spans, hstatus.spans]
  · cases ack.reason <;> rfl
  · rw [optionalField_append_optional (by simp) (by rfl) fun text htext ↦
      Reads.text (hreason text htext)]
    simp (disch := decide) only [field_append_optional]
    simp [field, List.lookup, htag.decode, hstatus.decode]

theorem carries_reject {message : Reject} (hreason : ∀ text ∈ message.reasonText, textFits text) :
    Carries readReject (writeReject message) message.typeTag message := by
  have htag := reads_u8 message.typeTag
  have htype := reads_u8 message.rejectedType
  have hcode := reads_u8 message.reasonCode
  refine carries_record (wellFormed_append_optional (by simp) ⟨by simp, by simp, by simp, ?_⟩
    (by simp) (by omega) fun text htext ↦ (Reads.text (hreason text htext)).spans) ?_ ?_
  · simp [htag.spans, htype.spans, hcode.spans]
  · cases message.reasonText <;> rfl
  · rw [optionalField_append_optional (by simp) (by rfl) fun text htext ↦
      Reads.text (hreason text htext)]
    simp (disch := decide) only [field_append_optional]
    simp [field, List.lookup, htag.decode, htype.decode, hcode.decode]

end Derived

/-! ### Encoding and decoding -/

namespace Minicbor.Derives

variable {cbor : Minicbor}

/-- Assumes: the documented format of the codec, for one of its decoders too. What the bytes carry
is what is decoded from them. -/
theorem reads_back (hderives : cbor.Derives) {α : Type} {decoder : Bytes → Option α}
    {reader : Reader α} (hdecoder : ∀ fields, WellFormed fields →
      decoder (writeRecord fields) = decode reader (writeRecord fields))
    {bytes : Bytes} {tag : UInt8} {value : α} (hcarries : Derived.Carries reader bytes tag value) :
    decoder bytes = some value ∧ cbor.decodeHeader bytes = some tag := by
  obtain ⟨⟨fields, hfields, rfl⟩, hvalue, htag⟩ := hcarries
  rw [hdecoder fields hfields, hderives.decode_header fields hfields]
  exact ⟨hvalue, htag⟩

/-- The documented format is enough for what the code relies on. -/
theorem lawful (hderives : cbor.Derives) : cbor.Lawful := by
  have hreport (report : MeteringReport) :=
    hderives.reads_back hderives.decode_meteringReport (Derived.carries_meteringReport report)
  have hreject (type : MessageType) (reason : RejectReason) :=
    hderives.reads_back hderives.decode_reject (@Derived.carries_reject (Reject.new type reason)
      fun _ htext ↦ absurd htext (Option.not_mem_none _))
  simp only [← hderives.encode_meteringReport] at hreport
  simp only [← hderives.encode_reject] at hreject
  exact ⟨fun _ _ _ ↦ (hreport _).2, fun _ _ _ ↦ (hreport _).1, fun type reason ↦
    (hreject type reason).2, fun type reason ↦ (hreject type reason).1⟩

end Minicbor.Derives

/-- The codec in the shape of the derived one is lawful. -/
theorem Minicbor.derived_lawful : Minicbor.derived.Lawful :=
  Minicbor.derived_derives.lawful

/-- A message of any of the types that are sent. -/
inductive Message
  | meteringReport (message : MeteringReport)
  | announce (message : Announce)
  | bootstrapToken (message : BootstrapToken)
  | bootstrapAck (message : BootstrapAck)
  | reject (message : Reject)
  | disconnect (message : Disconnect)
  | priceSheet (message : PriceSheet)
  | accept (message : Accept)
  deriving DecidableEq, Repr

namespace Message

/-- The type of the struct. -/
def type : Message → MessageType
  | meteringReport _ => .meteringReport
  | announce _ => .announce
  | bootstrapToken _ => .bootstrapToken
  | bootstrapAck _ => .bootstrapAck
  | reject _ => .reject
  | disconnect _ => .disconnect
  | priceSheet _ => .priceSheet
  | accept _ => .accept

/-- The tag the struct carries in its first field. -/
def typeTag : Message → UInt8
  | meteringReport message => message.typeTag
  | announce message => message.typeTag
  | bootstrapToken message => message.typeTag
  | bootstrapAck message => message.typeTag
  | reject message => message.typeTag
  | disconnect message => message.typeTag
  | priceSheet message => message.typeTag
  | accept message => message.typeTag

/-- The tag is the one that the constructors of the struct set; the other fields are arbitrary. -/
def Tagged (message : Message) : Prop :=
  message.typeTag = message.type.asU8

/-- The lengths of what the message holds are machine words. -/
def Fits : Message → Prop
  | meteringReport _ => True
  | announce message => textFits message.unit
  | bootstrapToken message => message.token.length < 2 ^ 64
  | bootstrapAck message => ∀ text ∈ message.reason, textFits text
  | reject message => ∀ text ∈ message.reasonText, textFits text
  | disconnect _ => True
  | priceSheet message =>
    message.products.length < 2 ^ 64 ∧ ∀ product ∈ message.products, product.Fits
  | accept message => message.channelFunding.length < 2 ^ 64

/-- Every constructor of the source tags what it builds. -/
theorem tagged_constructors :
    (∀ elapsedMs delivered received,
      (meteringReport (MeteringReport.new elapsedMs delivered received)).Tagged) ∧
    (∀ version pubkey unit capabilities,
      (announce (Announce.new version pubkey unit capabilities)).Tagged) ∧
    (∀ token, (bootstrapToken (BootstrapToken.new token)).Tagged) ∧
    (bootstrapAck BootstrapAck.accepted).Tagged ∧
    (∀ reason, (bootstrapAck (BootstrapAck.rejected reason)).Tagged) ∧
    (∀ type reason, (reject (Reject.new type reason)).Tagged) ∧
    (∀ type reason text, (reject ((Reject.new type reason).withReasonText text)).Tagged) ∧
    (∀ reason, (disconnect (Disconnect.new reason)).Tagged) ∧
    (∀ products interval, (priceSheet (PriceSheet.new products interval)).Tagged) ∧
    ∀ productId optionId interval channelFunding,
      (accept (Accept.new productId optionId interval channelFunding)).Tagged := by
  refine ⟨?_, ?_, ?_, ?_, ?_, ?_, ?_, ?_, ?_, ?_⟩ <;> intros <;> rfl

variable (cbor : Minicbor)

/-- `encode` of the struct. -/
def encode : Message → Bytes
  | meteringReport message => cbor.encodeMeteringReport message
  | announce message => cbor.encodeAnnounce message
  | bootstrapToken message => cbor.encodeBootstrapToken message
  | bootstrapAck message => cbor.encodeBootstrapAck message
  | reject message => cbor.encodeReject message
  | disconnect message => cbor.encodeDisconnect message
  | priceSheet message => cbor.encodePriceSheet message
  | accept message => cbor.encodeAccept message

/-- `decode` of the struct of the given type, if there is one. -/
def decodeAs (bytes : Bytes) : MessageType → Option Message
  | .meteringReport => (cbor.decodeMeteringReport bytes).map meteringReport
  | .announce => (cbor.decodeAnnounce bytes).map announce
  | .bootstrapToken => (cbor.decodeBootstrapToken bytes).map bootstrapToken
  | .bootstrapAck => (cbor.decodeBootstrapAck bytes).map bootstrapAck
  | .reject => (cbor.decodeReject bytes).map reject
  | .disconnect => (cbor.decodeDisconnect bytes).map disconnect
  | .priceSheet => (cbor.decodePriceSheet bytes).map priceSheet
  | .accept => (cbor.decodeAccept bytes).map accept
  | _ => none

variable {cbor}

open Derived in
/-- Assumes: the documented format, and lengths that fit. The decoder of a message's own type gives
the message back, and the header of its bytes is its tag. -/
theorem decodeAs_encode (hderives : cbor.Derives) {message : Message} (hfits : message.Fits) :
    decodeAs cbor (message.encode cbor) message.type = some message ∧
      cbor.decodeHeader (message.encode cbor) = some message.typeTag := by
  cases message with
  | meteringReport message =>
    obtain ⟨hvalue, htag⟩ :=
      hderives.reads_back hderives.decode_meteringReport (carries_meteringReport message)
    simp only [encode, type, decodeAs, typeTag, hderives.encode_meteringReport, hvalue, htag,
      Option.map_some, and_self]
  | announce message =>
    obtain ⟨hvalue, htag⟩ := hderives.reads_back hderives.decode_announce (carries_announce hfits)
    simp only [encode, type, decodeAs, typeTag, hderives.encode_announce, hvalue, htag,
      Option.map_some, and_self]
  | bootstrapToken message =>
    obtain ⟨hvalue, htag⟩ :=
      hderives.reads_back hderives.decode_bootstrapToken (carries_bootstrapToken hfits)
    simp only [encode, type, decodeAs, typeTag, hderives.encode_bootstrapToken, hvalue, htag,
      Option.map_some, and_self]
  | bootstrapAck message =>
    obtain ⟨hvalue, htag⟩ :=
      hderives.reads_back hderives.decode_bootstrapAck (carries_bootstrapAck hfits)
    simp only [encode, type, decodeAs, typeTag, hderives.encode_bootstrapAck, hvalue, htag,
      Option.map_some, and_self]
  | reject message =>
    obtain ⟨hvalue, htag⟩ := hderives.reads_back hderives.decode_reject (carries_reject hfits)
    simp only [encode, type, decodeAs, typeTag, hderives.encode_reject, hvalue, htag,
      Option.map_some, and_self]
  | disconnect message =>
    obtain ⟨hvalue, htag⟩ :=
      hderives.reads_back hderives.decode_disconnect (carries_disconnect message)
    simp only [encode, type, decodeAs, typeTag, hderives.encode_disconnect, hvalue, htag,
      Option.map_some, and_self]
  | priceSheet message =>
    obtain ⟨hvalue, htag⟩ :=
      hderives.reads_back hderives.decode_priceSheet (carries_priceSheet hfits.1 hfits.2)
    simp only [encode, type, decodeAs, typeTag, hderives.encode_priceSheet, hvalue, htag,
      Option.map_some, and_self]
  | accept message =>
    obtain ⟨hvalue, htag⟩ := hderives.reads_back hderives.decode_accept (carries_accept hfits)
    simp only [encode, type, decodeAs, typeTag, hderives.encode_accept, hvalue, htag,
      Option.map_some, and_self]

/-- A tagged message is recognised as one of its type. -/
theorem peekType_encode (hderives : cbor.Derives) {message : Message} (htagged : message.Tagged)
    (hfits : message.Fits) : cbor.peekType (message.encode cbor) = some message.type := by
  rw [Minicbor.peekType, (decodeAs_encode hderives hfits).2, htagged, Option.bind_some,
    MessageType.fromU8_asU8]

end Message

/-- A message as it is sent: tagged by its constructor, and in memory. -/
structure Sendable where
  message : Message
  tagged : message.Tagged
  fits : message.Fits

end Tollgate
