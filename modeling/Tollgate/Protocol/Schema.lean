import Tollgate.Library.Cddl
import Tollgate.Protocol.RoundTrip

/-!
# The wire schema

The rules of `tollgate.cddl` for the messages a node sends: announces, price sheets, metering
reports, acknowledgements and rejections. The schema lists the reason codes in a comment; here they
are part of the rule.

Every message but a price sheet is admitted by its rule as soon as it has its tag. A price sheet is
admitted exactly if it has a product and each of its products has a mint option
(`admits_priceSheet_iff`); the encoder checks neither.
-/

set_option autoImplicit false
set_option relaxedAutoImplicit false

namespace Tollgate

open Cbor Cddl

/-! ### The rules -/

namespace Schema

def pubkey : Rule := .bstrSize 33

def productId : Rule := .bstrSize 32

def optionId : Rule := .bstrSize 32

/-- The codes of the schema's list. -/
def reasonCode : Rule :=
  .oneOf [0x01, 0x02, 0x03, 0x04, 0x05, 0x06, 0x07, 0x08, 0x09, 0xFF]

def protocolVersion : Rule := .uintSize 1

def capabilities : Rule := .uintSize 4

def announce : Rule :=
  .record [required 0 (.literal 0), required 1 protocolVersion, required 2 pubkey,
    required 3 .tstr, required 4 capabilities]

def pricingScale : Rule := .uint

def scaledPrice : Rule := .int

def mintOption : Rule :=
  .record [required 1 optionId, required 2 .tstr, required 3 scaledPrice, required 4 scaledPrice,
    required 5 .tstr]

def product : Rule :=
  .record [required 1 productId, required 2 .bstr, required 3 pricingScale,
    required 4 (.oneOrMore mintOption)]

def intervalRange : Rule := .tuple [.uintSize 4, .uintSize 4]

def priceSheet : Rule :=
  .record [required 0 (.literal 1), required 1 (.oneOrMore product), required 2 intervalRange]

def nullableProductId : Rule := .either .null productId

def nullablePricing : Rule := .either .null (.oneOrMore mintOption)

def meteringReport : Rule :=
  .record [required 0 (.literal 4), required 1 .uint, required 2 .uint, required 3 .uint,
    optional 4 nullableProductId, optional 5 nullablePricing]

def bootstrapStatus : Rule := .uintSize 1

def bootstrapAck : Rule :=
  .record [required 0 (.literal 8), required 1 bootstrapStatus, optional 2 (.either .null .tstr)]

def reject : Rule :=
  .record [required 0 (.literal 13), required 1 (.uintSize 1), required 2 reasonCode,
    optional 3 (.either .null .tstr)]

/-- The rule of a message that a node sends. -/
def rule : MessageType → Option Rule
  | .announce => some announce
  | .priceSheet => some priceSheet
  | .meteringReport => some meteringReport
  | .bootstrapAck => some bootstrapAck
  | .reject => some reject
  | _ => none

end Schema

/-- A body has a type, and is admitted by the rule of its type. -/
def Conforms (cbor : Minicbor) (bytes : Bytes) : Prop :=
  ∃ type rule, cbor.peekType bytes = some type ∧ Schema.rule type = some rule ∧ rule.Admits bytes

/-! ### Values -/

namespace Derived

/-- A message with the tag of its type begins with the literal of its rule. -/
theorem admits_tag {tag : UInt8} {type : MessageType} (htag : tag = type.asU8) :
    (Rule.literal type.asU8.toNat).Admits (writeU8 tag) := by
  rw [htag]
  exact ⟨_, List.mem_singleton_self _, type.asU8.toNat_lt.trans (by norm_num), rfl⟩

theorem admits_u8 (n : UInt8) : (Rule.uintSize 1).Admits (writeU8 n) :=
  ⟨n.toNat, n.toNat_lt, n.toNat_lt.trans (by norm_num), rfl⟩

theorem admits_u32 (n : UInt32) : (Rule.uintSize 4).Admits (writeU32 n) :=
  ⟨n.toNat, n.toNat_lt, n.toNat_lt.trans (by norm_num), rfl⟩

theorem admits_u32_uint (n : UInt32) : Rule.uint.Admits (writeU32 n) :=
  ⟨n.toNat, n.toNat_lt.trans (by norm_num), n.toNat_lt.trans (by norm_num), rfl⟩

theorem admits_u64 (n : UInt64) : Rule.uint.Admits (writeU64 n) :=
  ⟨n.toNat, n.toNat_lt, n.toNat_lt, rfl⟩

theorem admits_i64 (n : Int64) : Rule.int.Admits (writeI64 n) := by
  have hlow := n.le_toInt
  have hhigh := n.toInt_lt
  rw [writeI64, writeInt]
  split_ifs with hsign
  · exact ⟨0, by omega, n.toInt.toNat, by omega, rfl⟩
  · exact ⟨1, by omega, (-1 - n.toInt).toNat, by omega, rfl⟩

theorem admits_vector {length : ℕ} (hlength : length < 2 ^ 64) (bytes : Vector UInt8 length) :
    (Rule.bstrSize length).Admits (writeVector bytes) :=
  ⟨bytes.toList, Vector.length_toList, hlength, rfl⟩

theorem admits_text {text : String} (htext : textFits text) : Rule.tstr.Admits (writeText text) :=
  ⟨text, htext, rfl⟩

theorem admits_reason (reason : RejectReason) : Schema.reasonCode.Admits (writeU8 reason.asU8) := by
  refine ⟨reason.asU8.toNat, ?_, reason.asU8.toNat_lt.trans (by norm_num), rfl⟩
  cases reason <;> decide

/-! ### Messages -/

theorem admits_announce {message : Announce} (htag : message.typeTag = MessageType.announce.asU8)
    (hunit : textFits message.unit) : Schema.announce.Admits (writeAnnounce message) := by
  have hliteral : (Rule.literal 0).Admits (writeU8 message.typeTag) := admits_tag htag
  have hkey := admits_vector (by norm_num) message.pubkey
  refine ⟨_, ⟨by simp, by simp, by simp, ?_, by simp [required]⟩, rfl⟩
  simp [required, hliteral, admits_u8, admits_u32, hkey, admits_text hunit,
    Schema.protocolVersion, Schema.pubkey, Schema.capabilities]

/-- The entries still fill the fields with an optional value at the end. -/
theorem fills_append_optional {α : Type} {fields : List Field} {entries : List (ℕ × Bytes)}
    {key : ℕ} {rule : Rule} {write : α → Bytes} {value : Option α} (hfills : Fills fields entries)
    (hfield : Cddl.optional key rule ∈ fields) (hlength : entries.length + 1 < 2 ^ 64)
    (hkey : key < 2 ^ 64) (hnew : key ∉ entries.map Prod.fst)
    (hvalue : ∀ present ∈ value, rule.Admits (write present)) :
    Fills fields (entries ++ Derived.optional key write value) := by
  cases value with
  | none => rwa [Derived.optional, List.append_nil]
  | some present =>
    refine ⟨by simpa [Derived.optional] using hlength, ?_, ?_, ?_, ?_⟩
    · exact List.forall_mem_append.mpr ⟨hfills.keys, List.forall_mem_singleton.mpr hkey⟩
    · rw [Derived.optional, List.map_append, List.nodup_append]
      refine ⟨hfills.distinct, List.nodup_singleton _, ?_⟩
      rintro other hother last hlast rfl
      obtain rfl : other = key := List.mem_singleton.mp hlast
      exact hnew hother
    · refine List.forall_mem_append.mpr ⟨hfills.known, List.forall_mem_singleton.mpr ?_⟩
      exact ⟨_, hfield, rfl, hvalue present rfl⟩
    · intro field hmem hrequired
      rw [List.map_append, List.mem_append]
      exact .inl (hfills.complete field hmem hrequired)

theorem admits_meteringReport {message : MeteringReport}
    (htag : message.typeTag = MessageType.meteringReport.asU8) :
    Schema.meteringReport.Admits (writeMeteringReport message) := by
  have hliteral : (Rule.literal 4).Admits (writeU8 message.typeTag) := admits_tag htag
  have hid : ∀ id ∈ message.newProductId, Schema.nullableProductId.Admits (writeVector id) :=
    fun id _ ↦ .inr (admits_vector (by norm_num) id)
  refine ⟨_, fills_append_optional
    ⟨by simp, by simp, by simp, ?_, by simp [required, Cddl.optional]⟩
    (by simp) (by simp) (by norm_num) (by simp) hid, rfl⟩
  simp [required, hliteral, admits_u64]

/-- Optional texts are written as texts or not at all. -/
theorem admits_nullableText {reason : Option String} (hreason : ∀ text ∈ reason, textFits text) :
    ∀ text ∈ reason, (Rule.either .null .tstr).Admits (writeText text) :=
  fun text htext ↦ .inr (admits_text (hreason text htext))

theorem admits_bootstrapAck {message : BootstrapAck}
    (htag : message.typeTag = MessageType.bootstrapAck.asU8)
    (hreason : ∀ text ∈ message.reason, textFits text) :
    Schema.bootstrapAck.Admits (writeBootstrapAck message) := by
  have hliteral : (Rule.literal 8).Admits (writeU8 message.typeTag) := admits_tag htag
  refine ⟨_, fills_append_optional
    ⟨by simp, by simp, by simp, ?_, by simp [required, Cddl.optional]⟩
    (by simp) (by simp) (by norm_num) (by simp) (admits_nullableText hreason), rfl⟩
  simp [required, hliteral, admits_u8, Schema.bootstrapStatus]

/-- Assumes: a reason of the schema's list. -/
theorem admits_reject {message : Reject} {reason : RejectReason}
    (htag : message.typeTag = MessageType.reject.asU8) (hcode : message.reasonCode = reason.asU8)
    (htext : ∀ text ∈ message.reasonText, textFits text) :
    Schema.reject.Admits (writeReject message) := by
  have hliteral : (Rule.literal 13).Admits (writeU8 message.typeTag) := admits_tag htag
  refine ⟨_, fills_append_optional
    ⟨by simp, by simp, by simp, ?_, by simp [required, Cddl.optional]⟩
    (by simp) (by simp) (by norm_num) (by simp) (admits_nullableText htext), rfl⟩
  simp [required, hliteral, hcode, admits_u8, admits_reason]

/-! ### Price sheets -/

theorem admits_mintOption {option : MintOption} (hfits : option.Fits) :
    Schema.mintOption.Admits (writeMintOption option) := by
  have hid := admits_vector (by norm_num) option.optionId
  refine ⟨_, ⟨by simp, by simp, by simp, ?_, by simp [required]⟩, rfl⟩
  simp [required, hid, admits_i64, admits_text hfits.1, admits_text hfits.2, Schema.optionId,
    Schema.scaledPrice]

theorem admits_intervalRange (range : IntervalRange) :
    Schema.intervalRange.Admits (writeIntervalRange range) :=
  ⟨_, by simp, .cons (admits_u32 range.minMs) (.cons (admits_u32 range.maxMs) .nil), rfl⟩

/-- A product is admitted exactly if it can be paid at some mint. -/
theorem admits_productEntry_iff {product : ProductEntry} (hfits : product.Fits) :
    Schema.product.Admits (writeProductEntry product) ↔ product.mintOptions ≠ [] := by
  have hid := admits_vector (by norm_num) product.productId
  have hextensions : Rule.bstr.Admits (writeBytes product.extensions) :=
    ⟨product.extensions, hfits.1, rfl⟩
  have hitems : ∀ item ∈ product.mintOptions.map writeMintOption,
      Schema.mintOption.Admits item := by
    rw [List.forall_mem_map]
    exact fun option hoption ↦ admits_mintOption (hfits.2.2 option hoption)
  have hsingle : ∀ item ∈ product.mintOptions.map writeMintOption, Spans 1 item :=
    fun item hitem ↦ Schema.mintOption.single item (hitems item hitem)
  have hcount : (product.mintOptions.map writeMintOption).length < 2 ^ 64 := by
    rw [List.length_map]
    exact hfits.2.1
  have hoptions : (Rule.oneOrMore Schema.mintOption).Admits
      (writeArray (product.mintOptions.map writeMintOption)) ↔ product.mintOptions ≠ [] := by
    rw [oneOrMore_writeArray hcount hsingle, and_iff_left hitems, ne_eq, List.map_eq_nil_iff]
  unfold Schema.product writeProductEntry
  rw [record_writeRecord (by simp) (by simp)]
  · constructor
    · intro hfills
      have hfield : required 4 (.oneOrMore Schema.mintOption) ∈ [required 1 Schema.productId,
          required 2 .bstr, required 3 Schema.pricingScale,
          required 4 (.oneOrMore Schema.mintOption)] := by simp
      exact hoptions.mp (hfills.admits (by decide) hfield (by simp [required]))
    · intro hmints
      refine ⟨by simp, by simp, by simp, ?_, by simp [required]⟩
      simp [required, hid, hextensions, admits_u32_uint, hoptions.mpr hmints, Schema.productId,
        Schema.pricingScale]
  · simp [(reads_vector (by omega) product.productId).spans, Spans.bytes hfits.1,
      (reads_u32 product.pricingScale).spans, Spans.array hcount hsingle]

/-- A price sheet is admitted exactly if it sells something that can be paid at some mint. -/
theorem admits_priceSheet_iff {sheet : PriceSheet}
    (htag : sheet.typeTag = MessageType.priceSheet.asU8)
    (hlength : sheet.products.length < 2 ^ 64)
    (hfits : ∀ product ∈ sheet.products, product.Fits) :
    Schema.priceSheet.Admits (writePriceSheet sheet) ↔
      sheet.products ≠ [] ∧ ∀ product ∈ sheet.products, product.mintOptions ≠ [] := by
  have hliteral : (Rule.literal 1).Admits (writeU8 sheet.typeTag) := admits_tag htag
  have hsingle : ∀ item ∈ sheet.products.map writeProductEntry, Spans 1 item := by
    rw [List.forall_mem_map]
    exact fun product hproduct ↦ (reads_productEntry (hfits product hproduct)).spans
  have hcount : (sheet.products.map writeProductEntry).length < 2 ^ 64 := by
    rwa [List.length_map]
  have hproducts : (Rule.oneOrMore Schema.product).Admits
      (writeArray (sheet.products.map writeProductEntry)) ↔
        sheet.products ≠ [] ∧ ∀ product ∈ sheet.products, product.mintOptions ≠ [] := by
    rw [oneOrMore_writeArray hcount hsingle, List.forall_mem_map, ne_eq, List.map_eq_nil_iff]
    refine and_congr_right fun _ ↦ forall₂_congr fun product hproduct ↦ ?_
    exact admits_productEntry_iff (hfits product hproduct)
  unfold Schema.priceSheet writePriceSheet
  rw [record_writeRecord (by simp) (by simp)]
  · constructor
    · intro hfills
      have hfield : required 1 (.oneOrMore Schema.product) ∈ [required 0 (.literal 1),
          required 1 (.oneOrMore Schema.product), required 2 Schema.intervalRange] := by simp
      exact hproducts.mp (hfills.admits (by decide) hfield (by simp [required]))
    · intro hsells
      refine ⟨by simp, by simp, by simp, ?_, by simp [required]⟩
      simp [required, hliteral, hproducts.mpr hsells, admits_intervalRange]
  · simp [(reads_u8 sheet.typeTag).spans, Spans.array hcount hsingle,
      (reads_intervalRange sheet.interval).spans]

end Derived

end Tollgate
