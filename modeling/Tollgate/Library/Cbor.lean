import Mathlib

/-!
# CBOR items of definite length

Writers and readers for the part of CBOR that records with integer keys use: unsigned and negative
integers, byte and text strings, arrays and maps, each with its shortest head. A reader takes a
value off the front of a buffer and returns the rest. `skipItems` steps over whole items without
building them, as a record reader does for the keys it does not know.

A record is written as a map from small integers to values (`writeRecord`), and read by cutting the
map into the raw bytes behind each key (`readRecord`) and reading the fields off those
(`field`, `optionalField`).

`readHead_writeHead` is the round trip of heads. `Spans count bytes` says that `bytes` is a run of
`count` items as far as skipping is concerned; it is closed under concatenation (`Spans.append`),
and is what `readRecord_writeRecord` needs of the values of a record.
-/

set_option autoImplicit false
set_option relaxedAutoImplicit false

namespace Cbor

/-! ### Heads -/

/-- The last `width` base-256 digits of a number, most significant first. -/
def bigEndian : ℕ → ℕ → List UInt8
  | 0, _ => []
  | width + 1, n => UInt8.ofNat (n / 256 ^ width) :: bigEndian width n

/-- The number with the given base-256 digits, after the digits already read. -/
def ofBigEndian (acc : ℕ) : List UInt8 → ℕ
  | [] => acc
  | digit :: rest => ofBigEndian (acc * 256 + digit.toNat) rest

/-- The head of an item: its major type and its shortest argument. -/
def writeHead (major n : ℕ) : List UInt8 :=
  if n < 24 then [UInt8.ofNat (major * 32 + n)]
  else if n < 2 ^ 8 then UInt8.ofNat (major * 32 + 24) :: bigEndian 1 n
  else if n < 2 ^ 16 then UInt8.ofNat (major * 32 + 25) :: bigEndian 2 n
  else if n < 2 ^ 32 then UInt8.ofNat (major * 32 + 26) :: bigEndian 4 n
  else UInt8.ofNat (major * 32 + 27) :: bigEndian 8 n

/-- Take a number of the given width off the front. -/
def readDigits (width : ℕ) (bytes : List UInt8) : Option (ℕ × List UInt8) :=
  if width ≤ bytes.length then some (ofBigEndian 0 (bytes.take width), bytes.drop width) else none

/-- Take a head off the front: its major type, its argument and the rest. Arguments that announce
an indefinite length, and the reserved ones, are refused. -/
def readHead : List UInt8 → Option (ℕ × ℕ × List UInt8)
  | [] => none
  | first :: rest =>
    let argument :=
      match first.toNat % 32 with
      | 24 => readDigits 1 rest
      | 25 => readDigits 2 rest
      | 26 => readDigits 4 rest
      | 27 => readDigits 8 rest
      | small => if small < 24 then some (small, rest) else none
    argument.map fun pair ↦ (first.toNat / 32, pair.1, pair.2)

@[simp] theorem length_bigEndian (width n : ℕ) : (bigEndian width n).length = width := by
  induction width with
  | zero => rfl
  | succ width ih => rw [bigEndian, List.length_cons, ih]

/-- Reading the digits of a number gives its residue. -/
theorem ofBigEndian_bigEndian (width n acc : ℕ) :
    ofBigEndian acc (bigEndian width n) = acc * 256 ^ width + n % 256 ^ width := by
  induction width generalizing acc with
  | zero => simp [bigEndian, ofBigEndian, Nat.mod_one]
  | succ width ih =>
    have hdigit : (UInt8.ofNat (n / 256 ^ width)).toNat = n / 256 ^ width % 256 :=
      UInt8.toNat_ofNat'
    have hmod : n % 256 ^ (width + 1) =
        n % 256 ^ width + 256 ^ width * (n / 256 ^ width % 256) := by
      rw [pow_succ, Nat.mod_mul]
    rw [bigEndian, ofBigEndian, ih, hdigit, hmod, pow_succ]
    ring

/-- Numbers with the same last digits have the same residue. -/
theorem mod_eq_of_bigEndian_eq {width m n : ℕ} (heq : bigEndian width m = bigEndian width n) :
    m % 256 ^ width = n % 256 ^ width := by
  have hread := congrArg (ofBigEndian 0) heq
  rwa [ofBigEndian_bigEndian, ofBigEndian_bigEndian, zero_mul, zero_add, zero_add] at hread

theorem readDigits_bigEndian {width n : ℕ} (hn : n < 256 ^ width) (rest : List UInt8) :
    readDigits width (bigEndian width n ++ rest) = some (n, rest) := by
  unfold readDigits
  rw [if_pos (by simp), List.take_left' (length_bigEndian width n),
    List.drop_left' (length_bigEndian width n), ofBigEndian_bigEndian, Nat.mod_eq_of_lt hn,
    zero_mul, zero_add]

/-- The first byte of a head keeps the major type and the short argument apart. -/
theorem toNat_firstByte {major info : ℕ} (hmajor : major < 8) (hinfo : info < 32) :
    (UInt8.ofNat (major * 32 + info)).toNat / 32 = major ∧
      (UInt8.ofNat (major * 32 + info)).toNat % 32 = info := by
  have hbyte : (UInt8.ofNat (major * 32 + info)).toNat = major * 32 + info := by
    rw [UInt8.toNat_ofNat']
    omega
  rw [hbyte]
  omega

/-- Assumes: a major type and an argument of at most eight bytes. A written head reads back. -/
theorem readHead_writeHead {major n : ℕ} (hmajor : major < 8) (hn : n < 2 ^ 64)
    (rest : List UInt8) :
    readHead (writeHead major n ++ rest) = some (major, n, rest) := by
  unfold writeHead
  split_ifs with h1 h2 h3 h4
  · obtain ⟨hdiv, hmod⟩ := toNat_firstByte hmajor (by omega : n < 32)
    simp only [List.cons_append, List.nil_append, readHead, hdiv, hmod]
    split
    all_goals first
      | omega
      | simp [h1]
  · obtain ⟨hdiv, hmod⟩ := toNat_firstByte hmajor (by omega : 24 < 32)
    simp only [List.cons_append, readHead, hdiv, hmod, Option.map_some,
      readDigits_bigEndian (show n < 256 ^ 1 by omega)]
  · obtain ⟨hdiv, hmod⟩ := toNat_firstByte hmajor (by omega : 25 < 32)
    simp only [List.cons_append, readHead, hdiv, hmod, Option.map_some,
      readDigits_bigEndian (show n < 256 ^ 2 by omega)]
  · obtain ⟨hdiv, hmod⟩ := toNat_firstByte hmajor (by omega : 26 < 32)
    simp only [List.cons_append, readHead, hdiv, hmod, Option.map_some,
      readDigits_bigEndian (show n < 256 ^ 4 by omega)]
  · obtain ⟨hdiv, hmod⟩ := toNat_firstByte hmajor (by omega : 27 < 32)
    simp only [List.cons_append, readHead, hdiv, hmod, Option.map_some,
      readDigits_bigEndian (show n < 256 ^ 8 by omega)]

/-! ### Values -/

def writeUnsigned (n : ℕ) : List UInt8 :=
  writeHead 0 n

/-- A signed integer: a negative one is written as the distance from `-1`. -/
def writeInt (n : ℤ) : List UInt8 :=
  if 0 ≤ n then writeHead 0 n.toNat else writeHead 1 (-1 - n).toNat

def writeBytes (bytes : List UInt8) : List UInt8 :=
  writeHead 2 bytes.length ++ bytes

def writeText (text : String) : List UInt8 :=
  writeHead 3 text.toByteArray.data.toList.length ++ text.toByteArray.data.toList

def writeArray (items : List (List UInt8)) : List UInt8 :=
  writeHead 4 items.length ++ items.flatten

/-- A reader of one value off the front of a buffer. -/
abbrev Reader (α : Type) := List UInt8 → Option (α × List UInt8)

/-- An unsigned integer below `bound`. -/
def readUnsigned (bound : ℕ) : Reader ℕ := fun bytes ↦
  match readHead bytes with
  | some (0, n, rest) => if n < bound then some (n, rest) else none
  | _ => none

/-- A 64-bit signed integer. -/
def readInt : Reader ℤ := fun bytes ↦
  match readHead bytes with
  | some (0, n, rest) => if n < 2 ^ 63 then some (n, rest) else none
  | some (1, n, rest) => if n < 2 ^ 63 then some (-1 - n, rest) else none
  | _ => none

/-- The payload of a string of the given major type. -/
def readString (major : ℕ) : Reader (List UInt8) := fun bytes ↦
  match readHead bytes with
  | some (kind, n, rest) =>
    if kind = major ∧ n ≤ rest.length then some (rest.take n, rest.drop n) else none
  | none => none

def readBytes : Reader (List UInt8) :=
  readString 2

def readText : Reader String := fun bytes ↦
  (readString 3 bytes).bind fun pair ↦
    (String.fromUTF8? ⟨pair.1.toArray⟩).map fun text ↦ (text, pair.2)

/-- As many values as asked for, one after the other. -/
def readMany {α : Type} (reader : Reader α) : ℕ → Reader (List α)
  | 0, bytes => some ([], bytes)
  | count + 1, bytes =>
    (reader bytes).bind fun first ↦
      (readMany reader count first.2).map fun others ↦ (first.1 :: others.1, others.2)

def readArray {α : Type} (reader : Reader α) : Reader (List α) := fun bytes ↦
  match readHead bytes with
  | some (4, n, rest) => readMany reader n rest
  | _ => none

/-- A value read from a buffer that holds nothing else that matters. -/
def decode {α : Type} (reader : Reader α) (bytes : List UInt8) : Option α :=
  (reader bytes).map Prod.fst

/-! ### Skipping -/

/-- Step over `count` items. The fuel bounds the number of heads met. -/
def skipItems : ℕ → ℕ → List UInt8 → Option (List UInt8)
  | _, 0, bytes => some bytes
  | 0, _ + 1, _ => none
  | fuel + 1, count + 1, bytes =>
    match readHead bytes with
    | none => none
    | some (major, n, rest) =>
      match major with
      | 2 | 3 => if n ≤ rest.length then skipItems fuel count (rest.drop n) else none
      | 4 => skipItems fuel (n + count) rest
      | 5 => skipItems fuel (2 * n + count) rest
      | 6 => skipItems fuel (1 + count) rest
      | _ => skipItems fuel count rest

/-- Step over one item. -/
def skip (bytes : List UInt8) : Option (List UInt8) :=
  skipItems bytes.length 1 bytes

/-- Skipping takes `bytes` for a run of `count` items, whatever follows. -/
def Spans (count : ℕ) (bytes : List UInt8) : Prop :=
  ∃ heads ≤ bytes.length, ∀ fuel more rest,
    skipItems (heads + fuel) (count + more) (bytes ++ rest) = skipItems fuel more rest

theorem Spans.nil : Spans 0 [] :=
  ⟨0, le_rfl, fun fuel more rest ↦ by rw [zero_add, zero_add, List.nil_append]⟩

theorem Spans.append {first second : ℕ} {front back : List UInt8} (hfront : Spans first front)
    (hback : Spans second back) : Spans (first + second) (front ++ back) := by
  obtain ⟨m, hm, hskip⟩ := hfront
  obtain ⟨n, hn, hskip'⟩ := hback
  refine ⟨m + n, by rw [List.length_append]; omega, fun fuel more rest ↦ ?_⟩
  rw [add_assoc, add_assoc, List.append_assoc, hskip, hskip']

theorem length_writeHead_pos (major n : ℕ) : 0 < (writeHead major n).length := by
  unfold writeHead
  split_ifs <;> simp

/-- One head is stepped over by one unit of fuel. -/
theorem skipItems_writeHead {major n : ℕ} (hmajor : major < 8) (hn : n < 2 ^ 64)
    (fuel more : ℕ) (rest : List UInt8) :
    skipItems (1 + fuel) (1 + more) (writeHead major n ++ rest) =
      match major with
      | 2 | 3 => if n ≤ rest.length then skipItems fuel more (rest.drop n) else none
      | 4 => skipItems fuel (n + more) rest
      | 5 => skipItems fuel (2 * n + more) rest
      | 6 => skipItems fuel (1 + more) rest
      | _ => skipItems fuel more rest := by
  conv_lhs => rw [add_comm 1 fuel, add_comm 1 more, skipItems, readHead_writeHead hmajor hn]

/-- An integer or simple value is its head. -/
theorem Spans.head {major n : ℕ} (hmajor : major < 2) (hn : n < 2 ^ 64) :
    Spans 1 (writeHead major n) := by
  refine ⟨1, length_writeHead_pos major n, fun fuel more rest ↦ ?_⟩
  rw [skipItems_writeHead (by omega) hn]
  interval_cases major <;> rfl

theorem Spans.unsigned {n : ℕ} (hn : n < 2 ^ 64) : Spans 1 (writeUnsigned n) :=
  Spans.head (by omega) hn

theorem Spans.int {n : ℤ} (hlow : -2 ^ 63 ≤ n) (hhigh : n < 2 ^ 63) : Spans 1 (writeInt n) := by
  unfold writeInt
  split_ifs with hsign
  · exact Spans.head (by omega) (by omega)
  · exact Spans.head (by omega) (by omega)

/-- A string of either kind is its head and its payload. -/
theorem Spans.string {major : ℕ} (hmajor : major = 2 ∨ major = 3) {payload : List UInt8}
    (hlength : payload.length < 2 ^ 64) : Spans 1 (writeHead major payload.length ++ payload) := by
  refine ⟨1, ?_, fun fuel more rest ↦ ?_⟩
  · have := length_writeHead_pos major payload.length
    rw [List.length_append]
    omega
  · rw [List.append_assoc, skipItems_writeHead (by omega) hlength]
    obtain rfl | rfl := hmajor
    · simp
    · simp

theorem Spans.bytes {payload : List UInt8} (hlength : payload.length < 2 ^ 64) :
    Spans 1 (writeBytes payload) :=
  Spans.string (.inl rfl) hlength

theorem Spans.text {text : String} (hlength : text.toByteArray.data.toList.length < 2 ^ 64) :
    Spans 1 (writeText text) :=
  Spans.string (.inr rfl) hlength

/-- Runs of items one after the other, each of the same number. -/
theorem Spans.flatten {count : ℕ} {items : List (List UInt8)}
    (hitems : ∀ item ∈ items, Spans count item) : Spans (count * items.length) items.flatten := by
  induction items with
  | nil => exact Spans.nil
  | cons item others ih =>
    obtain ⟨hitem, hothers⟩ := List.forall_mem_cons.mp hitems
    rw [List.length_cons, Nat.mul_succ, Nat.add_comm, List.flatten_cons]
    exact hitem.append (ih hothers)

/-- A head that announces a run of items, and the run. -/
theorem Spans.container {major n inside : ℕ} {payload : List UInt8}
    (hkind : major = 4 ∧ inside = n ∨ major = 5 ∧ inside = 2 * n) (hn : n < 2 ^ 64)
    (hpayload : Spans inside payload) : Spans 1 (writeHead major n ++ payload) := by
  obtain ⟨heads, hheads, hskip⟩ := hpayload
  refine ⟨1 + heads, ?_, fun fuel more rest ↦ ?_⟩
  · have := length_writeHead_pos major n
    rw [List.length_append]
    omega
  · rw [List.append_assoc, add_assoc, skipItems_writeHead (by omega) hn]
    obtain ⟨rfl, rfl⟩ | ⟨rfl, rfl⟩ := hkind
    · exact hskip fuel more rest
    · exact hskip fuel more rest

theorem Spans.array {items : List (List UInt8)} (hlength : items.length < 2 ^ 64)
    (hitems : ∀ item ∈ items, Spans 1 item) : Spans 1 (writeArray items) := by
  have hflatten := Spans.flatten hitems
  rw [one_mul] at hflatten
  exact Spans.container (.inl ⟨rfl, rfl⟩) hlength hflatten

/-- Skipping an item leads to what follows it. -/
theorem Spans.skip_append {bytes : List UInt8} (hspans : Spans 1 bytes) (rest : List UInt8) :
    skip (bytes ++ rest) = some rest := by
  obtain ⟨heads, hheads, hskip⟩ := hspans
  have hfuel : (bytes ++ rest).length = heads + ((bytes ++ rest).length - heads) := by
    rw [List.length_append]
    omega
  rw [skip, hfuel]
  exact (hskip _ 0 rest).trans (by cases (bytes ++ rest).length - heads <;> rfl)

/-- An item ends where it ends. -/
theorem Spans.append_inj {first second rest rest' : List UInt8} (hfirst : Spans 1 first)
    (hsecond : Spans 1 second) (heq : first ++ rest = second ++ rest') :
    first = second ∧ rest = rest' := by
  have hskip := hfirst.skip_append rest
  rw [heq, hsecond.skip_append rest'] at hskip
  obtain rfl := Option.some.inj hskip
  exact ⟨List.append_cancel_right heq, rfl⟩

/-! ### Records -/

/-- A map from integer keys to values already written. -/
def writeRecord (fields : List (ℕ × List UInt8)) : List UInt8 :=
  writeHead 5 fields.length ++ fields.flatMap fun field ↦ writeUnsigned field.1 ++ field.2

/-- Cut the entries of a map into their keys and the raw bytes of their values. -/
def readEntries : ℕ → Reader (List (ℕ × List UInt8))
  | 0, bytes => some ([], bytes)
  | count + 1, bytes =>
    (readUnsigned (2 ^ 64) bytes).bind fun key ↦
      (skip key.2).bind fun rest ↦
        (readEntries count rest).map fun others ↦
          ((key.1, key.2.take (key.2.length - rest.length)) :: others.1, others.2)

/-- Read a map with integer keys. -/
def readRecord : Reader (List (ℕ × List UInt8)) := fun bytes ↦
  match readHead bytes with
  | some (5, n, rest) => readEntries n rest
  | _ => none

/-- A field that has to be there; a repeated key counts where it stands last. -/
def field {α : Type} (fields : List (ℕ × List UInt8)) (key : ℕ) (reader : Reader α) : Option α :=
  (fields.reverse.lookup key).bind (decode reader)

/-- A field that may be left out, or be written as null. -/
def optionalField {α : Type} (fields : List (ℕ × List UInt8)) (key : ℕ) (reader : Reader α) :
    Option (Option α) :=
  match fields.reverse.lookup key with
  | none => some none
  | some [0xf6] => some none
  | some bytes => (decode reader bytes).map some

/-- Assumes: values that are single items. A written record is cut back into its fields. -/
theorem readEntries_flatMap {fields : List (ℕ × List UInt8)}
    (hkeys : ∀ field ∈ fields, field.1 < 2 ^ 64) (hvalues : ∀ field ∈ fields, Spans 1 field.2)
    (rest : List UInt8) :
    readEntries fields.length
        ((fields.flatMap fun field ↦ writeUnsigned field.1 ++ field.2) ++ rest) =
      some (fields, rest) := by
  induction fields with
  | nil => rfl
  | cons first others ih =>
    have hkey := hkeys first List.mem_cons_self
    have hfollow := ih (fun field hfield ↦ hkeys field (List.mem_cons_of_mem _ hfield))
      fun field hfield ↦ hvalues field (List.mem_cons_of_mem _ hfield)
    set tail := (others.flatMap fun field ↦ writeUnsigned field.1 ++ field.2) ++ rest with htail
    have hread : readUnsigned (2 ^ 64) (writeUnsigned first.1 ++ (first.2 ++ tail)) =
        some (first.1, first.2 ++ tail) := by
      rw [readUnsigned, writeUnsigned, readHead_writeHead (by omega) hkey]
      exact if_pos hkey
    have hover := (hvalues first List.mem_cons_self).skip_append tail
    have hcut : (first.2 ++ tail).take ((first.2 ++ tail).length - tail.length) = first.2 := by
      rw [List.length_append, Nat.add_sub_cancel, List.take_left' rfl]
    rw [List.flatMap_cons, List.append_assoc, List.append_assoc, ← htail, List.length_cons,
      readEntries, hread, Option.bind_some, hover, Option.bind_some, hfollow, Option.map_some,
      hcut]

theorem readRecord_writeRecord {fields : List (ℕ × List UInt8)} (hlength : fields.length < 2 ^ 64)
    (hkeys : ∀ field ∈ fields, field.1 < 2 ^ 64) (hvalues : ∀ field ∈ fields, Spans 1 field.2)
    (rest : List UInt8) :
    readRecord (writeRecord fields ++ rest) = some (fields, rest) := by
  rw [readRecord, writeRecord, List.append_assoc, readHead_writeHead (by omega) hlength]
  exact readEntries_flatMap hkeys hvalues rest

theorem Spans.record {fields : List (ℕ × List UInt8)} (hlength : fields.length < 2 ^ 64)
    (hkeys : ∀ field ∈ fields, field.1 < 2 ^ 64) (hvalues : ∀ field ∈ fields, Spans 1 field.2) :
    Spans 1 (writeRecord fields) := by
  have hentries : ∀ entry ∈ fields.map fun field ↦ writeUnsigned field.1 ++ field.2,
      Spans 2 entry := by
    rw [List.forall_mem_map]
    intro field hfield
    exact (Spans.unsigned (hkeys field hfield)).append (hvalues field hfield)
  have hflatten := Spans.flatten hentries
  rw [List.length_map] at hflatten
  rw [writeRecord, List.flatMap_def]
  exact Spans.container (.inr ⟨rfl, rfl⟩) hlength hflatten

/-! ### Values that read back -/

/-- The reader takes `value` off `bytes`, whatever follows, and skipping takes them for one item. -/
structure Reads {α : Type} (reader : Reader α) (bytes : List UInt8) (value : α) : Prop where
  spans : Spans 1 bytes
  read : ∀ rest, reader (bytes ++ rest) = some (value, rest)

namespace Reads

variable {α : Type} {reader : Reader α} {written : List UInt8} {value : α}

theorem decode (hreads : Reads reader written value) : Cbor.decode reader written = some value := by
  have hread := hreads.read []
  rw [List.append_nil] at hread
  rw [Cbor.decode, hread, Option.map_some]

theorem unsigned {bound n : ℕ} (hbound : bound ≤ 2 ^ 64) (hn : n < bound) :
    Reads (readUnsigned bound) (writeUnsigned n) n where
  spans := Spans.unsigned (by omega)
  read rest := by
    rw [readUnsigned, writeUnsigned, readHead_writeHead (by omega) (by omega)]
    exact if_pos hn

theorem int {n : ℤ} (hlow : -2 ^ 63 ≤ n) (hhigh : n < 2 ^ 63) :
    Reads readInt (writeInt n) n where
  spans := Spans.int hlow hhigh
  read rest := by
    unfold readInt writeInt
    split_ifs with hsign
    · rw [readHead_writeHead (by omega) (by omega)]
      simp only [if_pos (show n.toNat < 2 ^ 63 by omega), Int.toNat_of_nonneg hsign]
    · rw [readHead_writeHead (by omega) (by omega)]
      simp only [if_pos (show (-1 - n).toNat < 2 ^ 63 by omega),
        Int.toNat_of_nonneg (show 0 ≤ -1 - n by omega), sub_sub_cancel]

/-- The payload of a string of the given kind reads back. -/
theorem string {major : ℕ} (hmajor : major = 2 ∨ major = 3) {payload : List UInt8}
    (hlength : payload.length < 2 ^ 64) :
    Reads (readString major) (writeHead major payload.length ++ payload) payload where
  spans := Spans.string hmajor hlength
  read rest := by
    rw [readString, List.append_assoc, readHead_writeHead (by omega) hlength]
    simp

theorem bytes {payload : List UInt8} (hlength : payload.length < 2 ^ 64) :
    Reads readBytes (writeBytes payload) payload :=
  string (.inl rfl) hlength

theorem text {text : String} (hlength : text.toByteArray.data.toList.length < 2 ^ 64) :
    Reads readText (writeText text) text where
  spans := Spans.text hlength
  read rest := by
    have hvalid : String.fromUTF8? text.toByteArray = some text := dif_pos text.isValidUTF8
    rw [readText, writeText, (string (.inr rfl) hlength).read, Option.bind_some,
      Array.toArray_toList, hvalid, Option.map_some]

theorem many {write : α → List UInt8} {values : List α}
    (hvalues : ∀ value ∈ values, Reads reader (write value) value) (rest : List UInt8) :
    readMany reader values.length ((values.map write).flatten ++ rest) = some (values, rest) := by
  induction values with
  | nil => rfl
  | cons value others ih =>
    obtain ⟨hvalue, hothers⟩ := List.forall_mem_cons.mp hvalues
    rw [List.map_cons, List.flatten_cons, List.append_assoc, List.length_cons, readMany,
      hvalue.read, Option.bind_some, ih hothers, Option.map_some]

theorem array {write : α → List UInt8} {values : List α} (hlength : values.length < 2 ^ 64)
    (hvalues : ∀ value ∈ values, Reads reader (write value) value) :
    Reads (readArray reader) (writeArray (values.map write)) values where
  spans := by
    refine Spans.array (by rw [List.length_map]; exact hlength) ?_
    rw [List.forall_mem_map]
    exact fun value hvalue ↦ (hvalues value hvalue).spans
  read rest := by
    rw [readArray, writeArray, List.length_map, List.append_assoc,
      readHead_writeHead (by omega) hlength]
    exact many hvalues rest

theorem record {fields : List (ℕ × List UInt8)} (hlength : fields.length < 2 ^ 64)
    (hkeys : ∀ field ∈ fields, field.1 < 2 ^ 64) (hvalues : ∀ field ∈ fields, Spans 1 field.2) :
    Reads readRecord (writeRecord fields) fields :=
  ⟨Spans.record hlength hkeys hvalues, readRecord_writeRecord hlength hkeys hvalues⟩

/-- A field is read off the bytes behind its key. -/
theorem field {fields : List (ℕ × List UInt8)} {key : ℕ} (hreads : Reads reader written value)
    (hkey : fields.reverse.lookup key = some written) :
    Cbor.field fields key reader = some value := by
  rw [Cbor.field, hkey, Option.bind_some, hreads.decode]

/-- Assumes: a reader that does not take null. An optional field that is there is read. -/
theorem optionalField {fields : List (ℕ × List UInt8)} {key : ℕ}
    (hreads : Reads reader written value) (hnull : reader [0xf6] = none)
    (hkey : fields.reverse.lookup key = some written) :
    Cbor.optionalField fields key reader = some (some value) := by
  have hne : written ≠ [0xf6] := by
    rintro rfl
    have hread := hreads.read []
    rw [List.append_nil, hnull] at hread
    cases hread
  rw [Cbor.optionalField, hkey]
  split
  · next hfound => cases hfound
  · next hfound => exact absurd (Option.some.inj hfound) hne
  · next found _ hfound =>
    obtain rfl : written = found := Option.some.inj hfound
    rw [hreads.decode, Option.map_some]

end Reads

end Cbor
