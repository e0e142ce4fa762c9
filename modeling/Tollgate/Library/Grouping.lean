import Mathlib.Data.List.Basic
import Std.Data.ExtTreeMap.Lemmas

/-!
# Grouping by key

A list of items is worked into a map: each item alters the entry of its own key. Whatever the order
in which the keys come, an entry is what the items of its key make of it (`getElem?_group`), so two
interleavings of the same groups give the same map.
-/

set_option autoImplicit false
set_option relaxedAutoImplicit false

namespace Tollgate

open Std

universe u v w

variable {Key : Type u} {Item : Type v} {Entry : Type w} [Ord Key] [TransOrd Key]

/-- Work the items into a map, each at its key. -/
def group (key : Item → Key) (act : Item → Option Entry → Option Entry)
    (map : ExtTreeMap Key Entry) (items : List Item) : ExtTreeMap Key Entry :=
  items.foldl (fun map item ↦ map.alter (key item) (act item)) map

/-- What the items of one key make of its entry. -/
def groupEntry (act : Item → Option Entry → Option Entry) (entry : Option Entry)
    (items : List Item) : Option Entry :=
  items.foldl (fun entry item ↦ act item entry) entry

section Entries

variable [LawfulEqOrd Key] [DecidableEq Key] (key : Item → Key)
  (act : Item → Option Entry → Option Entry)

/-- An entry is what the items of its key make of it. -/
theorem getElem?_group (map : ExtTreeMap Key Entry) (items : List Item) (place : Key) :
    (group key act map items)[place]? =
      groupEntry act map[place]? (items.filter fun item ↦ decide (key item = place)) := by
  induction items generalizing map with
  | nil => rfl
  | cons item rest ih =>
    refine (ih (map.alter (key item) (act item))).trans ?_
    rw [ExtTreeMap.getElem?_alter]
    by_cases hplace : key item = place
    · rw [List.filter_cons_of_pos (by simpa using hplace), if_pos (by simp [hplace]), hplace]
      rfl
    · rw [List.filter_cons_of_neg (by simpa using hplace),
        if_neg (by rwa [LawfulEqOrd.compare_eq_iff_eq])]

end Entries

theorem groupEntry_append (act : Item → Option Entry → Option Entry) (entry : Option Entry)
    (first second : List Item) :
    groupEntry act entry (first ++ second) = groupEntry act (groupEntry act entry first) second :=
  List.foldl_append

/-- Items that overwrite the entry leave the last one there. -/
theorem groupEntry_put (make : Item → Entry) (entry : Option Entry) (items : List Item) :
    groupEntry (fun item _ ↦ some (make item)) entry items =
      (items.getLast?.map make).or entry := by
  induction items generalizing entry with
  | nil => rfl
  | cons item rest ih =>
    refine (ih (some (make item))).trans ?_
    rw [List.getLast?_cons]
    cases rest.getLast? <;> rfl

/-- The values of a map, in the order of its keys. -/
def intoValues (map : ExtTreeMap Key Entry) : List Entry :=
  map.toList.map Prod.snd

section Values

variable {map : ExtTreeMap Key Entry} [LawfulEqOrd Key]

theorem mem_intoValues {entry : Entry} :
    entry ∈ intoValues map ↔ ∃ place : Key, map[place]? = some entry := by
  simp [intoValues, ExtTreeMap.mem_toList_iff_getElem?_eq_some]

/-- Assumes: entries that name their keys. They stand in the order of the names. -/
theorem pairwise_intoValues {name : Entry → Key}
    (hnamed : ∀ (place : Key) (entry : Entry), map[place]? = some entry → name entry = place) :
    (intoValues map).Pairwise fun first second ↦ compare (name first) (name second) = .lt := by
  refine List.pairwise_map.mpr (ExtTreeMap.ordered_keys_toList.imp_of_mem ?_)
  intro first second hfirst hsecond hlt
  rw [hnamed _ _ (ExtTreeMap.mem_toList_iff_getElem?_eq_some.mp hfirst),
    hnamed _ _ (ExtTreeMap.mem_toList_iff_getElem?_eq_some.mp hsecond)]
  exact hlt

end Values

end Tollgate
