import Mathlib.Algebra.BigOperators.Intervals
import Mathlib.Algebra.Order.BigOperators.Group.Finset

/-!
# Blocks one after another

A line of blocks, numbered on from the first, each of a length of its own. A place on the line lies
in one of them, at an offset: `Lies` says which is left when the blocks in front are taken off. The
order of the places is that of their blocks, and within a block that of their offsets
(`Lies.lt_iff`), so block and offset can stand for the place in any lexicographic comparison
(`Lies.cons_lt_cons_iff`).
-/

set_option autoImplicit false
set_option relaxedAutoImplicit false

namespace Blocks

/-! ### Where a block begins -/

/-- The length of the blocks from the first up to the one given. -/
def start (length : ℕ → ℕ) (first index : ℕ) : ℕ :=
  ∑ block ∈ Finset.Ico first index, length block

variable {length : ℕ → ℕ} {first index later : ℕ}

@[simp] theorem start_self (length : ℕ → ℕ) (first : ℕ) : start length first first = 0 := by
  rw [start, Finset.Ico_self, Finset.sum_empty]

theorem start_succ (hfirst : first ≤ index) :
    start length first (index + 1) = start length first index + length index :=
  Finset.sum_Ico_succ_top hfirst length

/-- Without the first block every later one begins that much earlier. -/
theorem start_eq_length_add (hfirst : first < index) :
    start length first index = length first + start length (first + 1) index :=
  Finset.sum_eq_sum_Ico_succ_bot hfirst length

theorem start_mono (hle : index ≤ later) : start length first index ≤ start length first later :=
  Finset.sum_le_sum_of_subset (Finset.Ico_subset_Ico_right hle)

/-- Blocks that are not empty. -/
theorem index_le_start (hpos : ∀ block, 0 < length block) :
    index ≤ first + start length first index := by
  have hcount : (Finset.Ico first index).card ≤ start length first index := by
    rw [Finset.card_eq_sum_ones]
    exact Finset.sum_le_sum fun block _ ↦ hpos block
  rw [Nat.card_Ico] at hcount
  omega

theorem start_const (size index : ℕ) : start (fun _ ↦ size) 0 index = index * size := by
  rw [start, Finset.sum_const_nat fun _ _ ↦ rfl, Nat.card_Ico, Nat.sub_zero]

/-! ### Where a place lies -/

/-- The place is in the block, at the offset. -/
structure Lies (length : ℕ → ℕ) (first place index offset : ℕ) : Prop where
  first_le : first ≤ index
  place_eq : place = start length first index + offset
  offset_lt : offset < length index

variable {place offset farther index' offset' : ℕ}

theorem Lies.front (hshort : place < length first) : Lies length first place first place := by
  refine ⟨le_rfl, ?_, hshort⟩
  rw [start_self, Nat.zero_add]

/-- A place behind the first block lies where it does without that block. -/
theorem Lies.behind (hlong : length first ≤ place)
    (hlies : Lies length (first + 1) (place - length first) index offset) :
    Lies length first place index offset := by
  have hfirst : first < index := hlies.first_le
  refine ⟨hfirst.le, ?_, hlies.offset_lt⟩
  have hplace := hlies.place_eq
  rw [start_eq_length_add hfirst]
  omega

/-- Blocks of one size: division. -/
theorem lies_div {size : ℕ} (hsize : 0 < size) (place : ℕ) :
    Lies (fun _ ↦ size) 0 place (place / size) (place % size) := by
  refine ⟨Nat.zero_le _, ?_, Nat.mod_lt place hsize⟩
  rw [start_const, Nat.mul_comm]
  exact (Nat.div_add_mod place size).symm

theorem Lies.lt_start_succ (hlies : Lies length first place index offset) :
    place < start length first (index + 1) := by
  have hlt := hlies.offset_lt
  rw [start_succ hlies.first_le, hlies.place_eq]
  omega

theorem Lies.lt_of_index_lt (hlies : Lies length first place index offset)
    (hfarther : Lies length first farther index' offset') (hindex : index < index') :
    place < farther :=
  calc place < start length first (index + 1) := hlies.lt_start_succ
    _ ≤ start length first index' := start_mono hindex
    _ ≤ start length first index' + offset' := Nat.le_add_right _ _
    _ = farther := hfarther.place_eq.symm

/-- Places in one block. -/
theorem Lies.lt_iff_offset_lt (hlies : Lies length first place index offset)
    (hfarther : Lies length first farther index offset') : place < farther ↔ offset < offset' := by
  rw [hlies.place_eq, hfarther.place_eq, Nat.add_lt_add_iff_left]

theorem Lies.lt_iff (hlies : Lies length first place index offset)
    (hfarther : Lies length first farther index' offset') :
    place < farther ↔ index < index' ∨ index = index' ∧ offset < offset' := by
  rcases lt_trichotomy index index' with hindex | rfl | hindex
  · exact iff_of_true (hlies.lt_of_index_lt hfarther hindex) (Or.inl hindex)
  · simp [hlies.lt_iff_offset_lt hfarther]
  · refine iff_of_false (hfarther.lt_of_index_lt hlies hindex).not_gt ?_
    rintro (hless | ⟨rfl, -⟩)
    · exact lt_asymm hindex hless
    · exact lt_irrefl _ hindex

/-- A place lies in one block only, and at one offset. -/
theorem Lies.eq_iff (hlies : Lies length first place index offset)
    (hfarther : Lies length first farther index' offset') :
    place = farther ↔ index = index' ∧ offset = offset' := by
  constructor
  · rintro rfl
    rcases lt_trichotomy index index' with hindex | rfl | hindex
    · exact absurd (hlies.lt_of_index_lt hfarther hindex) (lt_irrefl _)
    · exact ⟨rfl, Nat.add_left_cancel (hlies.place_eq.symm.trans hfarther.place_eq)⟩
    · exact absurd (hfarther.lt_of_index_lt hlies hindex) (lt_irrefl _)
  · rintro ⟨rfl, rfl⟩
    rw [hlies.place_eq, hfarther.place_eq]

/-! ### Lexicographic comparisons -/

/-- The rest matters between equal heads only. -/
theorem cons_lt_cons_congr {head head' : ℕ} {rest rest' other other' : List ℕ}
    (hrest : head = head' → (rest < rest' ↔ other < other')) :
    head :: rest < head' :: rest' ↔ head :: other < head' :: other' := by
  rw [List.cons_lt_cons_iff, List.cons_lt_cons_iff]
  exact or_congr_right (and_congr_right hrest)

/-- In a lexicographic comparison block and offset stand for the place. -/
theorem Lies.cons_lt_cons_iff (hlies : Lies length first place index offset)
    (hfarther : Lies length first farther index' offset') (rest rest' : List ℕ) :
    index :: offset :: rest < index' :: offset' :: rest' ↔ place :: rest < farther :: rest' := by
  rw [List.cons_lt_cons_iff, List.cons_lt_cons_iff, List.cons_lt_cons_iff, hlies.lt_iff hfarther,
    hlies.eq_iff hfarther]
  tauto

end Blocks
