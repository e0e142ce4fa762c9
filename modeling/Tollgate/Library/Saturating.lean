import Mathlib

/-!
# Saturating and wrapping machine arithmetic

Fixed-width integers of a program, read as numbers. Each operation is given once as a function of
the words and once, in a simp lemma, as what it does to their values: subtraction saturating at
zero, addition and multiplication saturating at the top of the type, the absolute difference, the
two's-complement wrap of a 128-bit intermediate, and the clamp of an integer into the 64-bit signed
range.
-/

set_option autoImplicit false
set_option relaxedAutoImplicit false

namespace UInt64

/-- The largest 64-bit word. -/
def maxWord : UInt64 := 18446744073709551615

/-- Subtraction that stops at zero. -/
def saturatingSub (a b : UInt64) : UInt64 :=
  if b ≤ a then a - b else 0

/-- Addition that stops at the largest word. -/
def saturatingAdd (a b : UInt64) : UInt64 :=
  if a.toNat + b.toNat < 2 ^ 64 then a + b else maxWord

/-- Multiplication that stops at the largest word. -/
def saturatingMul (a b : UInt64) : UInt64 :=
  if a.toNat * b.toNat < 2 ^ 64 then a * b else maxWord

/-- The distance between two words. -/
def absDiff (a b : UInt64) : UInt64 :=
  if a < b then b - a else a - b

theorem toNat_maxWord : maxWord.toNat = 2 ^ 64 - 1 := by decide

@[simp] theorem toNat_saturatingSub (a b : UInt64) :
    (a.saturatingSub b).toNat = a.toNat - b.toNat := by
  unfold saturatingSub
  split_ifs with h
  · rw [UInt64.toNat_sub_of_le a b h]
  · rw [UInt64.le_iff_toNat_le] at h
    rw [UInt64.toNat_zero]
    omega

theorem saturatingSub_of_le {a b : UInt64} (h : b ≤ a) : a.saturatingSub b = a - b :=
  if_pos h

@[simp] theorem toNat_saturatingAdd (a b : UInt64) :
    (a.saturatingAdd b).toNat = min (a.toNat + b.toNat) (2 ^ 64 - 1) := by
  unfold saturatingAdd
  split_ifs with h
  · rw [UInt64.toNat_add, Nat.mod_eq_of_lt h]
    omega
  · rw [toNat_maxWord]
    omega

/-- Below the top of the type a saturating sum is the sum. -/
theorem toNat_saturatingAdd_of_lt {a b : UInt64} (h : a.toNat + b.toNat < 2 ^ 64) :
    (a.saturatingAdd b).toNat = a.toNat + b.toNat := by
  rw [toNat_saturatingAdd]
  omega

@[simp] theorem toNat_saturatingMul (a b : UInt64) :
    (a.saturatingMul b).toNat = min (a.toNat * b.toNat) (2 ^ 64 - 1) := by
  unfold saturatingMul
  split_ifs with h
  · rw [UInt64.toNat_mul, Nat.mod_eq_of_lt h]
    omega
  · rw [toNat_maxWord]
    omega

theorem zero_saturatingMul (b : UInt64) : (0 : UInt64).saturatingMul b = 0 := by
  rw [← UInt64.toNat_inj, toNat_saturatingMul, UInt64.toNat_zero]
  omega

@[simp] theorem toNat_absDiff (a b : UInt64) :
    (a.absDiff b).toNat = (a.toNat - b.toNat) + (b.toNat - a.toNat) := by
  unfold absDiff
  split_ifs with h
  · have hlt := UInt64.lt_iff_toNat_lt.mp h
    rw [UInt64.toNat_sub_of_le b a (UInt64.le_iff_toNat_le.mpr (le_of_lt hlt))]
    omega
  · have hle : b ≤ a := by
      rw [UInt64.le_iff_toNat_le]
      rw [UInt64.lt_iff_toNat_lt] at h
      omega
    rw [UInt64.toNat_sub_of_le a b hle]
    have := UInt64.le_iff_toNat_le.mp hle
    omega

@[simp] theorem saturatingSub_self (a : UInt64) : a.saturatingSub a = 0 := by
  rw [← UInt64.toNat_inj, toNat_saturatingSub, Nat.sub_self, UInt64.toNat_zero]

/-- A word is zero exactly when its value is. -/
theorem eq_zero_iff_toNat (a : UInt64) : a = 0 ↔ a.toNat = 0 := by
  rw [← UInt64.toNat_inj, UInt64.toNat_zero]

end UInt64

namespace UInt8

/-- Addition of bytes that stops at `255`. -/
def saturatingAdd (a b : UInt8) : UInt8 :=
  if a.toNat + b.toNat < 2 ^ 8 then a + b else 255

@[simp] theorem toNat_saturatingAdd (a b : UInt8) :
    (a.saturatingAdd b).toNat = min (a.toNat + b.toNat) 255 := by
  unfold saturatingAdd
  split_ifs with h
  · rw [UInt8.toNat_add, Nat.mod_eq_of_lt h]
    omega
  · have : (255 : UInt8).toNat = 255 := by decide
    rw [this]
    omega

end UInt8

namespace Int

/-- The value a 128-bit signed register holds after an operation with exact result `x`. -/
def wrap128 (x : Int) : Int :=
  x.bmod (2 ^ 128)

/-- An exact result in the 128-bit range is held as it is. -/
theorem wrap128_of_mem {x : Int} (hlow : -(2 ^ 127) ≤ x) (hhigh : x < 2 ^ 127) :
    wrap128 x = x := by
  unfold wrap128
  apply Int.bmod_eq_of_le
  · omega
  · omega

end Int

namespace Int64

/-- The 64-bit signed integer nearest to `x`. -/
def clampOfInt (x : Int) : Int64 :=
  if -(2 ^ 63) ≤ x ∧ x < 2 ^ 63 then Int64.ofInt x
  else if 0 < x then Int64.maxValue else Int64.minValue

/-- Inside the range the clamp does nothing. -/
theorem toInt_clampOfInt_of_mem {x : Int} (hlow : -(2 ^ 63) ≤ x) (hhigh : x < 2 ^ 63) :
    (clampOfInt x).toInt = x := by
  unfold clampOfInt
  rw [if_pos ⟨hlow, hhigh⟩]
  exact Int64.toInt_ofInt_of_le hlow hhigh

/-- The clamp as a function of the integers. -/
theorem toInt_clampOfInt (x : Int) :
    (clampOfInt x).toInt = max (-(2 ^ 63)) (min x (2 ^ 63 - 1)) := by
  unfold clampOfInt
  split_ifs with hmem hpos
  · rw [Int64.toInt_ofInt_of_le hmem.1 hmem.2]
    omega
  · rw [Int64.toInt_maxValue]
    omega
  · rw [Int64.toInt_minValue]
    omega

end Int64

/-- A word read as a signed one is at most its value. -/
theorem UInt64.toInt_toInt64_le (word : UInt64) : word.toInt64.toInt ≤ word.toNat := by
  show word.toBitVec.toInt ≤ (word.toBitVec.toNat : ℤ)
  rw [BitVec.toInt_eq_toNat_cond]
  split_ifs <;> omega
