import Mathlib.Data.List.Infix

/-!
# Streaks

How many hits in a row a list of hits and misses ends with. A streak that stays below a limit is the
absence of that many hits in a row: `below_iff_not_infix`.
-/

set_option autoImplicit false
set_option relaxedAutoImplicit false

namespace Tollgate

namespace Streak

/-- The streak after one more hit or miss. -/
def next (streak : ℕ) (hit : Bool) : ℕ :=
  if hit then streak + 1 else 0

/-- The streak after a list of them. -/
def after (streak : ℕ) (hits : List Bool) : ℕ :=
  hits.foldl next streak

/-- The streak stays below a limit all along. -/
def Below (limit streak : ℕ) (hits : List Bool) : Prop :=
  ∀ before, before <+: hits → after streak before < limit

theorem after_append (streak : ℕ) (first second : List Bool) :
    after streak (first ++ second) = after (after streak first) second :=
  List.foldl_append

/-- The streak of a list is the number of hits that it ends with. -/
theorem le_after_iff {length : ℕ} {hits : List Bool} :
    length ≤ after 0 hits ↔ List.replicate length true <:+ hits := by
  induction hits using List.reverseRecOn generalizing length with
  | nil => simp [after]
  | append_singleton hits hit ih =>
    cases length with
    | zero => simp
    | succ length =>
      have hafter : after 0 (hits ++ [hit]) = next (after 0 hits) hit := after_append 0 hits [hit]
      rw [hafter, List.replicate_succ', List.suffix_concat_iff]
      cases hit with
      | false => simp [next]
      | true =>
        simp only [next, if_true, Nat.add_le_add_iff_right, ih]
        constructor
        · exact fun hsuffix ↦ Or.inr ⟨_, rfl, hsuffix⟩
        · rintro (hnil | ⟨others, heq, hsuffix⟩)
          · exact absurd hnil (by simp)
          · rw [List.append_cancel_right heq]
            exact hsuffix

/-- The streak of a list, read off its end. -/
theorem after_eq_length_takeWhile (hits : List Bool) :
    after 0 hits = (hits.reverse.takeWhile id).length := by
  induction hits using List.reverseRecOn with
  | nil => rfl
  | append_singleton hits hit ih =>
    rw [after_append, List.reverse_append]
    cases hit with
    | false => rfl
    | true => exact congrArg Nat.succ ih

/-- A streak stays below a limit exactly when there are not that many hits in a row. -/
theorem below_iff_not_infix {limit : ℕ} {hits : List Bool} :
    Below limit 0 hits ↔ ¬ List.replicate limit true <:+: hits := by
  rw [List.infix_iff_suffix_prefix]
  constructor
  · rintro hbelow ⟨before, hsuffix, hprefix⟩
    exact absurd (le_after_iff.mpr hsuffix) (Nat.not_le.mpr (hbelow before hprefix))
  · intro hnone before hprefix
    by_contra hlimit
    exact hnone ⟨before, le_after_iff.mp (Nat.not_lt.mp hlimit), hprefix⟩

/-- Assumes: a streak below a limit all along two lists. It is so along the first, and then along
the second. -/
theorem Below.append {limit streak : ℕ} {first second : List Bool}
    (hbelow : Below limit streak (first ++ second)) :
    after streak first < limit ∧ Below limit (after streak first) second := by
  refine ⟨hbelow first (List.prefix_append first second), fun before hprefix ↦ ?_⟩
  rw [← after_append]
  exact hbelow (first ++ before) ((List.prefix_append_right_inj first).mpr hprefix)

end Streak

end Tollgate
