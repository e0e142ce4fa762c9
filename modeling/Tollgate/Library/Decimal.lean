import Mathlib

/-!
# Machine integers as decimal text

How Rust prints and reads them: a number is printed in decimal digits, with a minus sign if it is
negative. Reading takes an optional sign (for an unsigned number only a plus) and at least one
digit, nothing else, and fails for a number that does not fit. What is printed reads back.
-/

set_option autoImplicit false
set_option relaxedAutoImplicit false

namespace Tollgate

namespace Decimal

/-- A number in decimal digits. -/
def digits (number : ℕ) : List Char :=
  Nat.toDigits 10 number

/-- The number that a list of decimal digits stands for. -/
def ofDigits (chars : List Char) : Option ℕ :=
  if chars ≠ [] ∧ chars.all Char.isDigit = true then some (Nat.ofDigitChars 10 chars 0) else none

theorem ofDigits_digits (number : ℕ) : ofDigits (digits number) = some number := by
  have hall : (digits number).all Char.isDigit = true :=
    List.all_eq_true.mpr fun char hchar ↦
      Nat.isDigit_of_mem_toDigits (by decide) (by decide) hchar
  rw [ofDigits, if_pos ⟨Nat.toDigits_ne_nil, hall⟩, digits, Nat.ofDigitChars_ten_toDigits]

/-- A list of digits starts with one. -/
theorem isDigit_of_digits {number : ℕ} {first : Char} {rest : List Char}
    (hdigits : digits number = first :: rest) : first.isDigit = true := by
  refine Nat.isDigit_of_mem_toDigits (b := 10) (n := number) (by decide) (by decide) ?_
  show first ∈ digits number
  rw [hdigits]
  exact List.mem_cons_self

/-- `u64::to_string`. -/
def showU64 (number : UInt64) : String :=
  String.ofList (digits number.toNat)

/-- `str::parse::<u64>`. -/
def parseU64 (text : String) : Option UInt64 :=
  let unsigned := match text.toList with
    | '+' :: rest => rest
    | chars => chars
  (ofDigits unsigned).bind fun number ↦
    if number < 2 ^ 64 then some (UInt64.ofNat number) else none

/-- `i64::to_string`. -/
def showI64 (number : Int64) : String :=
  if number.toInt < 0 then String.ofList ('-' :: digits number.toInt.natAbs)
  else String.ofList (digits number.toInt.natAbs)

/-- A number that fits. -/
def toI64 (number : ℤ) : Option Int64 :=
  if -2 ^ 63 ≤ number ∧ number < 2 ^ 63 then some (Int64.ofInt number) else none

/-- `str::parse::<i64>`. -/
def parseI64 (text : String) : Option Int64 :=
  match text.toList with
  | '+' :: rest => (ofDigits rest).bind fun number ↦ toI64 number
  | '-' :: rest => (ofDigits rest).bind fun number ↦ toI64 (-number)
  | chars => (ofDigits chars).bind fun number ↦ toI64 number

/-- Digits are read as they are, without a sign. -/
theorem parseU64_digits (number : ℕ) :
    parseU64 (String.ofList (digits number)) =
      if number < 2 ^ 64 then some (UInt64.ofNat number) else none := by
  unfold parseU64
  rw [String.toList_ofList]
  cases hdigits : digits number with
  | nil => exact absurd hdigits Nat.toDigits_ne_nil
  | cons first rest =>
    have hfirst := isDigit_of_digits hdigits
    have hplus : first ≠ '+' := by
      rintro rfl
      exact absurd hfirst (by decide)
    have hread := ofDigits_digits number
    rw [hdigits] at hread
    split
    · next heq => exact absurd (List.cons.inj heq).1 hplus
    · simp only [hread, Option.bind_some]

@[simp] theorem parseU64_showU64 (number : UInt64) : parseU64 (showU64 number) = some number := by
  rw [showU64, parseU64_digits, if_pos number.toNat_lt, UInt64.ofNat_toNat]

theorem toI64_toInt (number : Int64) : toI64 number.toInt = some number := by
  rw [toI64, if_pos ⟨number.le_toInt, number.toInt_lt⟩, Int64.ofInt_toInt]

@[simp] theorem parseI64_showI64 (number : Int64) : parseI64 (showI64 number) = some number := by
  unfold showI64 parseI64
  split_ifs with hneg
  · rw [String.toList_ofList]
    simp only [ofDigits_digits, Option.bind_some]
    rw [show -(number.toInt.natAbs : ℤ) = number.toInt by omega]
    exact toI64_toInt number
  · rw [String.toList_ofList]
    have habs : (number.toInt.natAbs : ℤ) = number.toInt := by omega
    have hread := ofDigits_digits number.toInt.natAbs
    cases hdigits : digits number.toInt.natAbs with
    | nil => exact absurd hdigits Nat.toDigits_ne_nil
    | cons first rest =>
      have hfirst := isDigit_of_digits hdigits
      rw [hdigits] at hread
      have hplus : first ≠ '+' := by
        rintro rfl
        exact absurd hfirst (by decide)
      have hminus : first ≠ '-' := by
        rintro rfl
        exact absurd hfirst (by decide)
      split
      · next heq => exact absurd (List.cons.inj heq).1 hplus
      · next heq => exact absurd (List.cons.inj heq).1 hminus
      · rw [hread, Option.bind_some, habs]
        exact toI64_toInt number

/-! ### Numbers of 32 bits -/

/-- A whole number, with a sign if it is negative. -/
def showInt (number : ℤ) : List Char :=
  if number < 0 then '-' :: digits number.natAbs else digits number.natAbs

/-- A whole number with a sign or without one. -/
def parseInt : List Char → Option ℤ
  | '+' :: rest => (ofDigits rest).map Int.ofNat
  | '-' :: rest => (ofDigits rest).map Int.negOfNat
  | chars => (ofDigits chars).map Int.ofNat

theorem parseInt_showInt (number : ℤ) : parseInt (showInt number) = some number := by
  unfold showInt
  split_ifs with hneg
  · rw [parseInt, ofDigits_digits, Option.map_some, Int.negOfNat_eq, Int.ofNat_eq_natCast]
    congr 1
    omega
  · have hread := ofDigits_digits number.natAbs
    cases hdigits : digits number.natAbs with
    | nil => exact absurd hdigits Nat.toDigits_ne_nil
    | cons first rest =>
      have hfirst := isDigit_of_digits hdigits
      rw [hdigits] at hread
      unfold parseInt
      split
      · next heq =>
        obtain rfl := (List.cons.inj heq).1
        exact absurd hfirst (by decide)
      · next heq =>
        obtain rfl := (List.cons.inj heq).1
        exact absurd hfirst (by decide)
      · rw [hread, Option.map_some, Int.ofNat_eq_natCast]
        congr 1
        omega

/-- `i32::to_string`. -/
def showI32 (number : Int32) : List Char :=
  showInt number.toInt

/-- `str::parse::<i32>`. -/
def parseI32 (chars : List Char) : Option Int32 :=
  (parseInt chars).bind fun number ↦
    if -2 ^ 31 ≤ number ∧ number < 2 ^ 31 then some (Int32.ofInt number) else none

@[simp] theorem parseI32_showI32 (number : Int32) : parseI32 (showI32 number) = some number := by
  rw [parseI32, showI32, parseInt_showInt, Option.bind_some,
    if_pos ⟨number.le_toInt, number.toInt_lt⟩, Int32.ofInt_toInt]

/-- `u32::to_string`. -/
def showU32 (number : UInt32) : List Char :=
  digits number.toNat

/-- `str::parse::<u32>`. -/
def parseU32 (chars : List Char) : Option UInt32 :=
  let unsigned := match chars with
    | '+' :: rest => rest
    | chars => chars
  (ofDigits unsigned).bind fun number ↦
    if number < 2 ^ 32 then some (UInt32.ofNat number) else none

@[simp] theorem parseU32_showU32 (number : UInt32) : parseU32 (showU32 number) = some number := by
  unfold parseU32 showU32
  have hread := ofDigits_digits number.toNat
  cases hdigits : digits number.toNat with
  | nil => exact absurd hdigits Nat.toDigits_ne_nil
  | cons first rest =>
    have hfirst := isDigit_of_digits hdigits
    rw [hdigits] at hread
    split
    · next heq =>
      obtain rfl := (List.cons.inj heq).1
      exact absurd hfirst (by decide)
    · simp only [hread, Option.bind_some]
      rw [if_pos number.toNat_lt, UInt32.ofNat_toNat]

end Decimal

end Tollgate
