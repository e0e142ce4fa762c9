import Mathlib

/-!
# JSON values

What a program makes of JSON by hand: it builds a value and prints it on one line, looks members of
an object up, and fills the fields of a record from the members of an object. A field that is
required has to be there, one that is optional may be missing or null, and members that are no
fields are passed over.

Reading a text is not defined here.
-/

set_option autoImplicit false
set_option relaxedAutoImplicit false

namespace Tollgate

/-- A value. A number that is not whole is kept as its text. -/
inductive Json
  | null
  | bool (value : Bool)
  | number (value : ℤ)
  | decimal (text : String)
  | string (text : String)
  | array (items : List Json)
  | object (members : List (String × Json))

namespace Json

/-! ### Printing -/

/-- A hexadecimal digit. -/
def hexChar (digit : ℕ) : Char :=
  Nat.digitChar digit

/-- A character inside a text: quotation marks, backslashes and control characters are escaped. -/
def escape (char : Char) : List Char :=
  if char = '"' then ['\\', '"']
  else if char = '\\' then ['\\', '\\']
  else if char = '\n' then ['\\', 'n']
  else if char = '\r' then ['\\', 'r']
  else if char = '\t' then ['\\', 't']
  else if char.toNat = 0x08 then ['\\', 'b']
  else if char.toNat = 0x0c then ['\\', 'f']
  else if char.toNat < 0x20 then
    ['\\', 'u', '0', '0', hexChar (char.toNat / 16), hexChar (char.toNat % 16)]
  else [char]

/-- A text in quotation marks. -/
def quote (text : String) : List Char :=
  '"' :: text.toList.flatMap escape ++ ['"']

/-- A whole number in decimal digits. -/
def digits : ℤ → List Char
  | .ofNat magnitude => Nat.toDigits 10 magnitude
  | .negSucc less => '-' :: Nat.toDigits 10 (less + 1)

mutual

/-- A value on one line, without white space. -/
def chars : Json → List Char
  | null => ['n', 'u', 'l', 'l']
  | bool true => ['t', 'r', 'u', 'e']
  | bool false => ['f', 'a', 'l', 's', 'e']
  | number value => digits value
  | decimal text => text.toList
  | string text => quote text
  | array items => '[' :: itemChars items ++ [']']
  | object members => '\x7b' :: memberChars members ++ ['\x7d']

/-- Values, with commas between them. -/
def itemChars : List Json → List Char
  | [] => []
  | [item] => chars item
  | item :: next :: rest => chars item ++ ',' :: itemChars (next :: rest)

/-- Members, with commas between them. -/
def memberChars : List (String × Json) → List Char
  | [] => []
  | [(name, value)] => quote name ++ ':' :: chars value
  | (name, value) :: next :: rest => quote name ++ ':' :: chars value ++ ',' ::
    memberChars (next :: rest)

end

/-- The text of a value. -/
def compact (value : Json) : String :=
  String.ofList value.chars

/-- The text of an object opens with a brace. -/
theorem toList_compact_object (members : List (String × Json)) :
    (object members).compact.toList = '\x7b' :: (memberChars members ++ ['\x7d']) := by
  rw [compact, String.toList_ofList, chars]
  rfl

/-! ### Looking inside -/

/-- The member of an object with a name; nothing else has members. -/
def get (name : String) : Json → Option Json
  | object members => members.lookup name
  | null | bool _ | number _ | decimal _ | string _ | array _ => none

/-- A whole number of 64 bits. -/
def asU64 : Json → Option UInt64
  | number value =>
    if 0 ≤ value ∧ value < 2 ^ 64 then some (UInt64.ofNat value.toNat) else none
  | null | bool _ | decimal _ | string _ | array _ | object _ => none

/-- A whole number of eight bits. -/
def asU8 : Json → Option UInt8
  | number value => if 0 ≤ value ∧ value < 2 ^ 8 then some (UInt8.ofNat value.toNat) else none
  | null | bool _ | decimal _ | string _ | array _ | object _ => none

def asStr : Json → Option String
  | string text => some text
  | null | bool _ | number _ | decimal _ | array _ | object _ => none

def asBool : Json → Option Bool
  | bool value => some value
  | null | number _ | decimal _ | string _ | array _ | object _ => none

def asArray : Json → Option (List Json)
  | array items => some items
  | null | bool _ | number _ | decimal _ | string _ | object _ => none

/-- A number of 64 bits. -/
def ofU64 (value : UInt64) : Json :=
  number value.toNat

@[simp] theorem asU64_ofU64 (value : UInt64) : (ofU64 value).asU64 = some value := by
  have hfits : (0 : ℤ) ≤ value.toNat ∧ (value.toNat : ℤ) < 2 ^ 64 :=
    ⟨Int.natCast_nonneg _, by exact_mod_cast value.toNat_lt⟩
  rw [ofU64, asU64, if_pos hfits, Int.toNat_natCast, UInt64.ofNat_toNat]

/-! ### Records -/

/-- Why a record is not filled. -/
inductive FieldError
  | missingField (name : String)
  | invalidType (name : String)
  deriving DecidableEq, Repr

section Fields

variable {α : Type} (read : Json → Option α) (members : List (String × Json)) (name : String)

/-- A field that has to be there. -/
def required : Except FieldError α :=
  match members.lookup name with
  | none => .error (.missingField name)
  | some value =>
    match read value with
    | none => .error (.invalidType name)
    | some field => .ok field

/-- A field that may be missing, or null. -/
def optional : Except FieldError (Option α) :=
  match members.lookup name with
  | none | some null => .ok none
  | some value =>
    match read value with
    | none => .error (.invalidType name)
    | some field => .ok (some field)

variable {read members name}

theorem optional_of_some {value : Json} {field : α} (hmember : members.lookup name = some value)
    (hnull : value ≠ null) (hread : read value = some field) :
    optional read members name = .ok (some field) := by
  unfold optional
  rw [hmember]
  cases value with
  | null => exact absurd rfl hnull
  | _ => simp only [hread]

end Fields

end Json

end Tollgate
