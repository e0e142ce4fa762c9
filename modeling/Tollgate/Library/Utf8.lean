import Mathlib

/-!
# Text and its bytes

The UTF-8 bytes of a text, and the text that Rust reads from any bytes: `from_utf8_lossy` puts one
replacement character for each longest start of a character that does not go on.

A character outside ASCII has no byte in common with one in ASCII. So an ASCII character is in a
text when its byte is in the text's bytes (`mem_encode_iff`).
-/

set_option autoImplicit false
set_option relaxedAutoImplicit false

namespace Tollgate

namespace Utf8

/-! ### From text to bytes -/

/-- The bytes of a text. -/
def encode (text : List Char) : List UInt8 :=
  text.flatMap String.utf8EncodeChar

/-- A character of ASCII. -/
def IsAscii (char : Char) : Prop :=
  char.toNat < 0x80

instance decidableIsAscii : DecidablePred IsAscii := fun char ↦
  inferInstanceAs (Decidable (char.toNat < 0x80))

/-- The byte of a character of ASCII. -/
def asciiByte (char : Char) : UInt8 :=
  UInt8.ofNat char.toNat

theorem toNat_asciiByte {char : Char} (hchar : IsAscii char) :
    (asciiByte char).toNat = char.toNat := by
  unfold IsAscii at hchar
  rw [asciiByte, UInt8.toNat_ofNat']
  omega

theorem utf8EncodeChar_ascii {char : Char} (hchar : IsAscii char) :
    String.utf8EncodeChar char = [asciiByte char] := by
  have hsmall : char.val.toNat ≤ 0x7f := Nat.le_of_lt_succ hchar
  simp only [String.utf8EncodeChar, if_pos hsmall]
  rfl

/-- Every byte of another character is a lead or a continuation. -/
theorem le_of_mem_utf8EncodeChar {char : Char} (hchar : ¬ IsAscii char) {byte : UInt8}
    (hbyte : byte ∈ String.utf8EncodeChar char) : 0x80 ≤ byte.toNat := by
  have hlarge : ¬ char.val.toNat ≤ 0x7f := fun hle ↦ hchar (Nat.lt_succ_of_le hle)
  have hall : ∀ byte ∈ String.utf8EncodeChar char, 0x80 ≤ byte.toNat := by
    simp only [String.utf8EncodeChar, if_neg hlarge]
    split_ifs
    all_goals
      simp only [List.forall_mem_cons, UInt8.toNat_ofNat']
      simp
      omega
  exact hall byte hbyte

theorem mem_utf8EncodeChar_iff {char other : Char} (hchar : IsAscii char) :
    asciiByte char ∈ String.utf8EncodeChar other ↔ char = other := by
  by_cases hother : IsAscii other
  · rw [utf8EncodeChar_ascii hother, List.mem_singleton, ← UInt8.toNat_inj, toNat_asciiByte hchar,
      toNat_asciiByte hother, Char.toNat_inj]
  · refine iff_of_false (fun hmem ↦ ?_) fun heq ↦ hother (heq ▸ hchar)
    have hle := le_of_mem_utf8EncodeChar hother hmem
    rw [toNat_asciiByte hchar] at hle
    exact absurd hchar (Nat.not_lt.mpr hle)

/-- A character of ASCII is in a text when its byte is. -/
theorem mem_encode_iff {char : Char} (hchar : IsAscii char) {text : List Char} :
    asciiByte char ∈ encode text ↔ char ∈ text := by
  simp [encode, mem_utf8EncodeChar_iff hchar]

theorem encode_append (first second : List Char) :
    encode (first ++ second) = encode first ++ encode second :=
  List.flatMap_append

/-- The bytes of a text in ASCII are its characters. -/
theorem encode_ascii {text : List Char} (htext : ∀ char ∈ text, IsAscii char) :
    encode text = text.map asciiByte := by
  rw [encode, List.flatMap_congr fun char hchar ↦ utf8EncodeChar_ascii (htext char hchar),
    ← List.map_eq_flatMap]

/-! ### From bytes to text -/

/-- The width of the character that a byte leads, zero if it leads none. -/
def charWidth (byte : UInt8) : ℕ :=
  if byte < 0x80 then 1
  else if 0xc2 ≤ byte ∧ byte ≤ 0xdf then 2
  else if 0xe0 ≤ byte ∧ byte ≤ 0xef then 3
  else if 0xf0 ≤ byte ∧ byte ≤ 0xf4 then 4
  else 0

/-- A byte that is not a character's first. -/
def isContinuation (byte : UInt8) : Bool :=
  decide (0x80 ≤ byte ∧ byte ≤ 0xbf)

/-- A second byte that fits the first of three or four: no encoding that is too long, no surrogate
and nothing above the last character. -/
def fitsLead (lead byte : UInt8) : Bool :=
  if lead = 0xe0 then decide (0xa0 ≤ byte ∧ byte ≤ 0xbf)
  else if lead = 0xed then decide (0x80 ≤ byte ∧ byte ≤ 0x9f)
  else if lead = 0xf0 then decide (0x90 ≤ byte ∧ byte ≤ 0xbf)
  else if lead = 0xf4 then decide (0x80 ≤ byte ∧ byte ≤ 0x8f)
  else isContinuation byte

/-- The replacement character. -/
def replacement : Char :=
  '\ufffd'

/-- The low six bits of a continuation. -/
def payload (byte : UInt8) : ℕ :=
  byte.toNat % 64

/-- The character that starts with a byte, and how many of the bytes behind it belong to it. Past
the end there is a zero, which continues nothing. -/
def decodeFirst (lead : UInt8) (rest : List UInt8) : Char × ℕ :=
  let second := rest.getD 0 0
  let third := rest.getD 1 0
  let fourth := rest.getD 2 0
  match charWidth lead with
  | 1 => (Char.ofNat lead.toNat, 0)
  | 2 =>
    if isContinuation second then (Char.ofNat (lead.toNat % 32 * 64 + payload second), 1)
    else (replacement, 0)
  | 3 =>
    if ¬ fitsLead lead second then (replacement, 0)
    else if ¬ isContinuation third then (replacement, 1)
    else (Char.ofNat ((lead.toNat % 16 * 64 + payload second) * 64 + payload third), 2)
  | 4 =>
    if ¬ fitsLead lead second then (replacement, 0)
    else if ¬ isContinuation third then (replacement, 1)
    else if ¬ isContinuation fourth then (replacement, 2)
    else
      (Char.ofNat (((lead.toNat % 8 * 64 + payload second) * 64 + payload third) * 64 +
        payload fourth), 3)
  | _ => (replacement, 0)

/-- The text of bytes, behind some that belong to a character already read. -/
def decodeBehind : ℕ → List UInt8 → List Char
  | _, [] => []
  | skip + 1, _ :: rest => decodeBehind skip rest
  | 0, lead :: rest =>
    let first := decodeFirst lead rest
    first.1 :: decodeBehind first.2 rest

/-- `String::from_utf8_lossy`. -/
def fromUtf8Lossy (bytes : List UInt8) : List Char :=
  decodeBehind 0 bytes

/-- `is_char_boundary`: the place, in bytes, is between characters or at an end. -/
def isCharBoundary : List Char → ℕ → Bool
  | _, 0 => true
  | [], _ + 1 => false
  | char :: rest, index + 1 =>
    if char.utf8Size ≤ index + 1 then isCharBoundary rest (index + 1 - char.utf8Size) else false

end Utf8

end Tollgate
