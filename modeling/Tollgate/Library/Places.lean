import Mathlib.Order.Interval.Finset.Nat
import Mathlib.Data.List.Nodup

/-!
# Deleting by place

A list in which some elements are marked and are known by their place among the marked ones. If
they are deleted one after the other by places that were noted at first, each deletion moves the
later ones up: the place then means an element as many places further on as are gone.

`without gone` is the list without the marked elements at these places, `take` adds the place that
is hit by the next deletion, and `Below` is the invariant by which the shift is just the number of
those gone.
-/

set_option autoImplicit false
set_option relaxedAutoImplicit false

namespace Tollgate.Places

variable {α : Type} {marked : α → Bool}

/-- The list without the marked elements at these places, where the first marked one has the place
`start`. -/
def without (marked : α → Bool) (gone : Finset ℕ) (start : ℕ) : List α → List α
  | [] => []
  | head :: rest =>
    if marked head then
      if start ∈ gone then without marked gone (start + 1) rest
      else head :: without marked gone (start + 1) rest
    else head :: without marked gone start rest

/-- The next deletion: an element known by itself, or by a place noted at first. -/
def take (gone : Finset ℕ) (itself : Bool) (place : ℕ) : Finset ℕ :=
  insert (if itself then place else place + gone.card) gone

/-- What is gone lies in front of what the place means now. -/
def Below (gone : Finset ℕ) (place : ℕ) : Prop := ∀ other ∈ gone, other < place + gone.card

/-! ### What is left -/

section Left

variable {gone : Finset ℕ} {start : ℕ}

theorem without_append (first second : List α) :
    without marked gone start (first ++ second) =
      without marked gone start first ++
        without marked gone (start + first.countP marked) second := by
  induction first generalizing start with
  | nil => rfl
  | cons head rest ih =>
    rw [List.cons_append, without, without]
    by_cases hmarked : marked head = true
    · rw [if_pos hmarked, if_pos hmarked, List.countP_cons_of_pos hmarked, ih, Nat.add_assoc,
        Nat.add_comm 1]
      split <;> rfl
    · rw [if_neg hmarked, if_neg hmarked, List.countP_cons_of_neg hmarked, ih]
      rfl

theorem without_sublist (list : List α) : (without marked gone start list).Sublist list := by
  induction list generalizing start with
  | nil => exact List.Sublist.refl _
  | cons head rest ih =>
    rw [without]
    split
    · split
      · exact (ih).cons head
      · exact (ih).cons_cons head
    · exact (ih).cons_cons head

/-- Only the places of the list matter. -/
theorem without_congr {gone' : Finset ℕ} {list : List α}
    (hsame : ∀ place, start ≤ place → place < start + list.countP marked →
      (place ∈ gone ↔ place ∈ gone')) :
    without marked gone start list = without marked gone' start list := by
  induction list generalizing start with
  | nil => rfl
  | cons head rest ih =>
    rw [without, without]
    by_cases hmarked : marked head = true
    · rw [List.countP_cons_of_pos hmarked] at hsame
      have hrest := @ih (start + 1) fun place hstart hplace ↦
        hsame place (by omega) (by omega)
      have hhead := hsame start (Nat.le_refl _) (by omega)
      simp only [hmarked, if_true, hrest, hhead]
    · rw [List.countP_cons_of_neg hmarked] at hsame
      rw [if_neg hmarked, if_neg hmarked, ih hsame]

@[simp] theorem without_empty (list : List α) : without marked ∅ start list = list := by
  induction list generalizing start with
  | nil => rfl
  | cons head rest ih =>
    rw [without]
    simp [ih]

theorem countP_without (list : List α) :
    (without marked gone start list).countP marked =
      (Finset.Ico start (start + list.countP marked) \ gone).card := by
  induction list generalizing start with
  | nil => simp [without]
  | cons head rest ih =>
    rw [without]
    by_cases hmarked : marked head = true
    · rw [if_pos hmarked, List.countP_cons_of_pos hmarked]
      have hsplit : Finset.Ico start (start + (rest.countP marked + 1)) =
          insert start (Finset.Ico (start + 1) (start + 1 + rest.countP marked)) := by
        ext place
        simp only [Finset.mem_Ico, Finset.mem_insert]
        omega
      have hnew : start ∉ Finset.Ico (start + 1) (start + 1 + rest.countP marked) \ gone := by
        simp
      rw [hsplit]
      by_cases hgone : start ∈ gone
      · rw [if_pos hgone, ih, Finset.insert_sdiff_of_mem _ hgone]
      · rw [if_neg hgone, List.countP_cons_of_pos hmarked, ih,
          Finset.insert_sdiff_of_notMem _ hgone, Finset.card_insert_of_notMem hnew]
    · rw [if_neg hmarked, List.countP_cons_of_neg hmarked, List.countP_cons_of_neg hmarked, ih]

/-- Elements that are not marked all stay. -/
theorem countP_without_of_unmarked {test : α → Bool}
    (htest : ∀ element, test element = true → marked element = false) (list : List α) :
    (without marked gone start list).countP test = list.countP test := by
  induction list generalizing start with
  | nil => rfl
  | cons head rest ih =>
    rw [without]
    by_cases hmarked : marked head = true
    · have hneg : ¬ test head = true := by
        intro hpos
        rw [htest head hpos] at hmarked
        exact absurd hmarked (by simp)
      rw [if_pos hmarked, List.countP_cons_of_neg hneg]
      split
      · exact ih
      · rw [List.countP_cons_of_neg hneg, ih]
    · rw [if_neg hmarked]
      by_cases hpos : test head = true
      · rw [List.countP_cons_of_pos hpos, List.countP_cons_of_pos hpos, ih]
      · rw [List.countP_cons_of_neg hpos, List.countP_cons_of_neg hpos, ih]

end Left

/-! ### One element -/

section Split

variable {gone : Finset ℕ} {front back : List α} {element : α}

theorem without_of_mem (hmarked : marked element = true) (hgone : front.countP marked ∈ gone) :
    without marked gone 0 (front ++ element :: back) =
      without marked gone 0 front ++ without marked gone (front.countP marked + 1) back := by
  rw [without_append, Nat.zero_add, without, if_pos hmarked, if_pos hgone]

theorem without_of_notMem (hmarked : marked element = true)
    (hgone : front.countP marked ∉ gone) :
    without marked gone 0 (front ++ element :: back) =
      without marked gone 0 front ++
        element :: without marked gone (front.countP marked + 1) back := by
  rw [without_append, Nat.zero_add, without, if_pos hmarked, if_neg hgone]

theorem without_of_unmarked (hmarked : marked element = false) :
    without marked gone 0 (front ++ element :: back) =
      without marked gone 0 front ++
        element :: without marked gone (front.countP marked) back := by
  rw [without_append, Nat.zero_add, without, hmarked]
  rfl

/-- One more is gone. -/
theorem without_insert (hmarked : marked element = true) :
    without marked (insert (front.countP marked) gone) 0 (front ++ element :: back) =
      without marked gone 0 front ++ without marked gone (front.countP marked + 1) back := by
  rw [without_of_mem hmarked (Finset.mem_insert_self _ _)]
  congr 1
  · apply without_congr
    intro place _ hplace
    rw [Finset.mem_insert, or_iff_right (by omega)]
  · apply without_congr
    intro place hplace _
    rw [Finset.mem_insert, or_iff_right (by omega)]

/-- Beyond the list nothing more is gone. -/
theorem without_insert_beyond {list : List α} {place : ℕ} (hplace : list.countP marked ≤ place) :
    without marked (insert place gone) 0 list = without marked gone 0 list := by
  apply without_congr
  intro other _ hother
  rw [Finset.mem_insert, or_iff_right (by omega)]

end Split

/-! ### The shift -/

section Shift

variable {gone : Finset ℕ} {place : ℕ}

theorem below_empty : Below ∅ place := fun other hother ↦ absurd hother (by simp)

theorem Below.mono (hbelow : Below gone place) {later : ℕ} (hlater : place ≤ later) :
    Below gone later := by
  intro other hother
  have hlt := hbelow other hother
  omega

theorem Below.notMem (hbelow : Below gone place) : place + gone.card ∉ gone :=
  fun hmem ↦ absurd (hbelow _ hmem) (by omega)

/-- A deletion keeps the invariant. -/
theorem Below.take (hbelow : Below gone place) (itself : Bool) :
    Below (take gone itself place) place := by
  have hcard : gone.card ≤ (Places.take gone itself place).card :=
    Finset.card_le_card (Finset.subset_insert _ _)
  intro other hother
  rcases Finset.mem_insert.mp hother with rfl | hother
  · cases itself with
    | true =>
      have hpos : 0 < (Places.take gone true place).card :=
        Finset.card_pos.mpr ⟨_, Finset.mem_insert_self _ _⟩
      simp only [if_true]
      omega
    | false =>
      have hnew : (Places.take gone false place).card = gone.card + 1 :=
        Finset.card_insert_of_notMem hbelow.notMem
      rw [hnew]
      show place + gone.card < _
      omega
  · have hlt := hbelow other hother
    omega

/-- In front of what the place means now just that many are left. -/
theorem Below.countP_front (hbelow : Below gone place) {front : List α}
    (hfront : front.countP marked = place + gone.card) :
    (without marked gone 0 front).countP marked = place := by
  have hsubset : gone ⊆ Finset.Ico 0 (place + gone.card) := by
    intro other hother
    exact Finset.mem_Ico.mpr ⟨Nat.zero_le _, hbelow other hother⟩
  rw [countP_without, hfront, Nat.zero_add, Finset.card_sdiff_of_subset hsubset, Nat.card_Ico]
  omega

/-- If it means nothing in the list, no more than that many are left. -/
theorem Below.countP_all (hbelow : Below gone place) {list : List α}
    (hlist : list.countP marked ≤ place + gone.card) :
    (without marked gone 0 list).countP marked ≤ place := by
  have hsubset : gone ⊆ Finset.Ico 0 (place + gone.card) := by
    intro other hother
    exact Finset.mem_Ico.mpr ⟨Nat.zero_le _, hbelow other hother⟩
  rw [countP_without, Nat.zero_add]
  calc (Finset.Ico 0 (list.countP marked) \ gone).card
      ≤ (Finset.Ico 0 (place + gone.card) \ gone).card :=
        Finset.card_le_card (Finset.sdiff_subset_sdiff
          (Finset.Ico_subset_Ico_right hlist) (Finset.Subset.refl gone))
    _ = place := by
        rw [Finset.card_sdiff_of_subset hsubset, Nat.card_Ico]
        omega

end Shift

/-! ### What should be left -/

/-- The element at a place, with what lies on either side of it. -/
theorem exists_split {list : List α} {place : ℕ} {element : α}
    (helement : (list.filter marked)[place]? = some element) :
    ∃ front back, list = front ++ element :: back ∧ marked element = true ∧
      front.countP marked = place := by
  induction list generalizing place with
  | nil => exact absurd helement (by simp)
  | cons head rest ih =>
    by_cases hmarked : marked head = true
    · rw [List.filter_cons_of_pos hmarked] at helement
      cases place with
      | zero =>
        rw [List.getElem?_cons_zero, Option.some.injEq] at helement
        subst helement
        exact ⟨[], rest, rfl, hmarked, rfl⟩
      | succ place =>
        obtain ⟨front, back, hrest, helement, hcount⟩ := ih helement
        refine ⟨head :: front, back, by rw [hrest]; rfl, helement, ?_⟩
        rw [List.countP_cons_of_pos hmarked, hcount]
    · rw [List.filter_cons_of_neg hmarked] at helement
      obtain ⟨front, back, hrest, helement, hcount⟩ := ih helement
      refine ⟨head :: front, back, by rw [hrest]; rfl, helement, ?_⟩
      rw [List.countP_cons_of_neg hmarked, hcount]

theorem getElem?_filter_split {front back : List α} {element : α}
    (hmarked : marked element = true) :
    ((front ++ element :: back).filter marked)[front.countP marked]? = some element := by
  rw [List.filter_append, List.filter_cons_of_pos hmarked, List.countP_eq_length_filter]
  simp

/-- The right elements are left exactly if those at the places that are gone, and no others, were
not to be kept.
Assumes: no element occurs twice, and those that are not marked are kept. -/
theorem without_eq_filter_iff {gone : Finset ℕ} {keep : α → Bool} {list : List α}
    (hnodup : list.Nodup) (hkeep : ∀ element, marked element = false → keep element = true) :
    without marked gone 0 list = list.filter keep ↔
      ∀ place element, (list.filter marked)[place]? = some element →
        (place ∈ gone ↔ keep element = false) := by
  constructor
  · intro hequal place element helement
    obtain ⟨front, back, rfl, hmarked, rfl⟩ := exists_split helement
    have hmem : element ∈ without marked gone 0 (front ++ element :: back) ↔
        keep element = true := by
      rw [hequal]
      simp
    have hothers : element ∉ front ++ back := (List.nodup_middle.mp hnodup).notMem
    by_cases hgone : front.countP marked ∈ gone
    · rw [without_of_mem hmarked hgone] at hmem
      have hsublist : (without marked gone 0 front ++
          without marked gone (front.countP marked + 1) back).Sublist (front ++ back) :=
        (without_sublist front).append (without_sublist back)
      have hout : ¬ keep element = true := fun hkept ↦ hothers (hsublist.subset (hmem.mpr hkept))
      simp [hgone, hout]
    · rw [without_of_notMem hmarked hgone] at hmem
      have hkept : keep element = true := hmem.mp (by simp)
      simp [hgone, hkept]
  · intro hplaces
    -- along the list, with what lies in front of it
    suffices hall : ∀ front rest, list = front ++ rest →
        without marked gone (front.countP marked) rest = rest.filter keep from hall [] list rfl
    intro front rest hsplit
    induction rest generalizing front with
    | nil => rfl
    | cons element back ih =>
      have hnext := ih (front ++ [element]) (by simp [hsplit])
      rw [without]
      by_cases hmarked : marked element = true
      · have hplace := hplaces (front.countP marked) element
          (by rw [hsplit]; exact getElem?_filter_split hmarked)
        rw [List.countP_append, List.countP_singleton, if_pos hmarked] at hnext
        rw [if_pos hmarked, hnext]
        by_cases hgone : front.countP marked ∈ gone
        · rw [if_pos hgone, List.filter_cons_of_neg (by simp [hplace.mp hgone])]
        · have hkept : keep element = true := by
            rw [← Bool.not_eq_false]
            exact fun hfalse ↦ hgone (hplace.mpr hfalse)
          rw [if_neg hgone, List.filter_cons_of_pos hkept]
      · have hkept := hkeep element (by simpa using hmarked)
        rw [List.countP_append, List.countP_singleton, if_neg hmarked, Nat.add_zero] at hnext
        rw [if_neg hmarked, hnext, List.filter_cons_of_pos hkept]

end Tollgate.Places
