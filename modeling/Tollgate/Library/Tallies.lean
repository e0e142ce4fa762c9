import Mathlib

/-!
# Named counters

Counters of 64 bits under names. A counter that is started shows nothing yet, and what is charged
to it shows modulo `2 ^ 64`; a charge under a name that is not there is lost.
-/

set_option autoImplicit false
set_option relaxedAutoImplicit false

namespace Tollgate

namespace Tallies

section Lookup

variable {Name : Type} [BEq Name] [LawfulBEq Name] {α : Type}

theorem lookup_cons_of_ne {name other : Name} (hne : name ≠ other) (value : α)
    (entries : List (Name × α)) :
    ((other, value) :: entries).lookup name = entries.lookup name := by
  rw [List.lookup_cons, beq_eq_false_iff_ne.mpr hne]

theorem lookup_eq_find? [DecidableEq Name] (name : Name) (entries : List (Name × α)) :
    entries.lookup name = (entries.find? fun entry ↦ decide (entry.1 = name)).map Prod.snd := by
  induction entries with
  | nil => rfl
  | cons entry rest ih =>
    obtain ⟨key, value⟩ := entry
    by_cases hname : name = key
    · simp [hname]
    · rw [lookup_cons_of_ne hname, ih, List.find?_cons_of_neg (by simpa using Ne.symm hname)]

end Lookup

variable {Name : Type} [BEq Name]

/-- A counter starts at zero, and is not started twice. -/
def begin (name : Name) (tallies : List (Name × UInt64)) : List (Name × UInt64) :=
  if (tallies.lookup name).isSome then tallies else tallies ++ [(name, 0)]

/-- Add an amount to a counter, once for each time it is named. -/
def charge (amount : ℕ) (names : List Name) (tallies : List (Name × UInt64)) :
    List (Name × UInt64) :=
  tallies.map fun tally ↦ (tally.1, tally.2 + UInt64.ofNat (names.count tally.1 * amount))

/-- What a counter shows, and zero if it is not there. -/
def total (name : Name) (tallies : List (Name × UInt64)) : UInt64 :=
  (tallies.lookup name).getD 0

variable [LawfulBEq Name]

theorem isSome_lookup_begin (name other : Name) (tallies : List (Name × UInt64)) :
    ((begin other tallies).lookup name).isSome ↔
      name = other ∨ (tallies.lookup name).isSome := by
  unfold begin
  split_ifs with hthere
  · constructor
    · exact Or.inr
    · rintro (rfl | hname)
      · exact hthere
      · exact hname
  · rw [List.lookup_append, Option.isSome_or, Bool.or_eq_true]
    by_cases hname : name = other
    · simp [hname]
    · simp [hname, lookup_cons_of_ne hname]

theorem total_begin (name other : Name) (tallies : List (Name × UInt64)) :
    total name (begin other tallies) = total name tallies := by
  unfold total begin
  split_ifs with hthere
  · rfl
  · rw [List.lookup_append]
    by_cases hname : name = other
    · subst hname
      rw [Option.not_isSome_iff_eq_none.mp hthere]
      simp
    · rw [lookup_cons_of_ne hname, List.lookup_nil, Option.or_none]

theorem lookup_charge (amount : ℕ) (names : List Name) (tallies : List (Name × UInt64))
    (name : Name) :
    (charge amount names tallies).lookup name =
      (tallies.lookup name).map (· + UInt64.ofNat (names.count name * amount)) := by
  induction tallies with
  | nil => rfl
  | cons tally rest ih =>
    obtain ⟨key, value⟩ := tally
    rw [charge, List.map_cons, ← charge]
    by_cases hname : name = key
    · subst hname
      rw [List.lookup_cons_self, List.lookup_cons_self, Option.map_some]
    · rw [lookup_cons_of_ne hname, lookup_cons_of_ne hname, ih]

theorem isSome_lookup_charge (amount : ℕ) (names : List Name) (tallies : List (Name × UInt64))
    (name : Name) :
    ((charge amount names tallies).lookup name).isSome = (tallies.lookup name).isSome := by
  rw [lookup_charge, Option.isSome_map]

/-- A counter that is named and there, or not named at all, shows its charge. -/
theorem total_charge {amount : ℕ} {names : List Name} {tallies : List (Name × UInt64)} {name : Name}
    (hthere : name ∈ names → (tallies.lookup name).isSome) :
    total name (charge amount names tallies) =
      total name tallies + UInt64.ofNat (names.count name * amount) := by
  rw [total, total, lookup_charge]
  by_cases hname : name ∈ names
  · obtain ⟨shown, hshown⟩ := Option.isSome_iff_exists.mp (hthere hname)
    simp [hshown]
  · rw [List.count_eq_zero_of_not_mem hname]
    simp

end Tallies

end Tollgate
