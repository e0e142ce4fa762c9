import Mathlib

/-!
# Sorting by a key that leaves ties

A list sorted by a total preorder is determined up to the order of tied elements. When each element
is written as a word and the words are joined, the result depends on more than the elements unless
tied words commute. `flatMap_eq_of_ties_commute` is one direction, an induction that pulls the first
element of one sorted list to the front of the other. The other direction takes two sorted lists
that differ in one swap (`exists_sorted_adjacent`). `sortFree_iff` puts them together.

If the words are self-delimiting, the join in turn determines the list (`flatMap_append_inj`).
-/

set_option autoImplicit false
set_option relaxedAutoImplicit false

namespace Ties

variable {α β : Type*} {le : α → α → Prop} {word : α → List β}

/-- Tied elements of the list have words that commute. -/
def TiesCommute (le : α → α → Prop) (word : α → List β) (items : List α) : Prop :=
  ∀ first ∈ items, ∀ second ∈ items, le first second → le second first →
    word first ++ word second = word second ++ word first

/-- A word that commutes with every word of a list commutes with their join. -/
theorem append_flatMap_comm {item : α} {items : List α}
    (hcommute : ∀ other ∈ items, word item ++ word other = word other ++ word item) :
    word item ++ items.flatMap word = items.flatMap word ++ word item := by
  induction items with
  | nil => simp
  | cons first rest ih =>
    obtain ⟨hfirst, hrest⟩ := List.forall_mem_cons.mp hcommute
    rw [List.flatMap_cons, ← List.append_assoc, hfirst, List.append_assoc, ih hrest,
      List.append_assoc]

/-- Assumes: tied words commute. Two sorted arrangements of a list join to the same word. -/
theorem flatMap_eq_of_ties_commute {first second : List α} (hperm : first.Perm second)
    (hfirst : first.Pairwise le) (hsecond : second.Pairwise le)
    (hties : TiesCommute le word first) : first.flatMap word = second.flatMap word := by
  induction first generalizing second with
  | nil => rw [hperm.symm.eq_nil]
  | cons head tail ih =>
    obtain ⟨before, after, rfl⟩ := List.append_of_mem (hperm.mem_iff.mp List.mem_cons_self)
    obtain ⟨hhead, htail⟩ := List.pairwise_cons.mp hfirst
    obtain ⟨hbefore, hafter, hcross⟩ := List.pairwise_append.mp hsecond
    have hrest : tail.Perm (before ++ after) := (hperm.trans List.perm_middle).cons_inv
    -- What stands in front of the head in the second list is tied with it.
    have hcommute : ∀ other ∈ before, word head ++ word other = word other ++ word head := by
      intro other hother
      have hmem : other ∈ tail := hrest.mem_iff.mpr (List.mem_append_left _ hother)
      exact hties head List.mem_cons_self other (List.mem_cons_of_mem _ hmem) (hhead other hmem)
        (hcross other hother head List.mem_cons_self)
    have hsorted : (before ++ after).Pairwise le :=
      hsecond.sublist ((List.sublist_cons_self head after).append_left before)
    have htailTies : TiesCommute le word tail := fun one hone other hother ↦
      hties one (List.mem_cons_of_mem _ hone) other (List.mem_cons_of_mem _ hother)
    calc (head :: tail).flatMap word
        = word head ++ (before ++ after).flatMap word := by
          rw [List.flatMap_cons, ih hrest htail hsorted htailTies]
      _ = (before ++ head :: after).flatMap word := by
          rw [List.flatMap_append, List.flatMap_append, List.flatMap_cons, ← List.append_assoc,
            append_flatMap_comm hcommute, List.append_assoc]

/-- No word of the list begins another in any continuation: the end of a word can be found while
reading. -/
def SelfDelimiting (word : α → List β) (items : List α) : Prop :=
  ∀ first ∈ items, ∀ second ∈ items, ∀ rest rest' : List β,
    word first ++ rest = word second ++ rest' → first = second ∧ rest = rest'

/-- Assumes: self-delimiting words and lists of one length. The join, with anything behind it,
determines the list. -/
theorem flatMap_append_inj {first second : List α} {rest rest' : List β}
    (hword : SelfDelimiting word (first ++ second)) (hlength : first.length = second.length)
    (heq : first.flatMap word ++ rest = second.flatMap word ++ rest') :
    first = second ∧ rest = rest' := by
  induction first generalizing second with
  | nil =>
    obtain rfl := List.length_eq_zero_iff.mp hlength.symm
    exact ⟨rfl, heq⟩
  | cons head tail ih =>
    cases second with
    | nil => exact absurd hlength (Nat.succ_ne_zero tail.length)
    | cons head' tail' =>
      rw [List.flatMap_cons, List.flatMap_cons, List.append_assoc, List.append_assoc] at heq
      obtain ⟨hhead, hjoin⟩ := hword head (by simp) head' (by simp) _ _ heq
      have htails : SelfDelimiting word (tail ++ tail') := by
        intro one hone other hother
        have hwider : ∀ item ∈ tail ++ tail', item ∈ (head :: tail) ++ (head' :: tail') := by
          intro item hitem
          rcases List.mem_append.mp hitem with hin | hin <;> simp [hin]
        exact hword one (hwider one hone) other (hwider other hother)
      obtain ⟨htail, hrest⟩ := ih htails (Nat.succ.inj hlength) hjoin
      exact ⟨by rw [hhead, htail], hrest⟩

section Swap

variable [DecidableRel le] [Std.Total le] [IsTrans α le]

/-- Two tied elements can stand next to each other, in either order, in a sorted arrangement. -/
theorem exists_sorted_adjacent {one other : α} (hle : le one other) (hge : le other one)
    (rest : List α) :
    ∃ before after, (before ++ one :: other :: after).Perm (one :: other :: rest) ∧
      (before ++ one :: other :: after).Pairwise le ∧
      (before ++ other :: one :: after).Pairwise le := by
  set sorted := rest.insertionSort le
  have hsorted : sorted.Pairwise le := List.pairwise_insertionSort le rest
  set below := sorted.filter fun item ↦ !decide (le one item)
  set above := sorted.filter fun item ↦ decide (le one item)
  have hbelow : ∀ item ∈ below, le item one := by
    intro item hitem
    have hnot : ¬ le one item := by simpa using (List.mem_filter.mp hitem).2
    exact (Std.Total.total one item).resolve_left hnot
  have habove : ∀ item ∈ above, le one item := fun item hitem ↦ by
    simpa using (List.mem_filter.mp hitem).2
  have hperm : (below ++ above).Perm rest :=
    (List.perm_append_comm.trans (List.filter_append_perm _ sorted)).trans
      (List.perm_insertionSort le rest)
  have hpair {first second : α} (hfirst : le first second) (hto : ∀ item ∈ below, le item first)
      (hto' : ∀ item ∈ below, le item second) (hfrom : ∀ item ∈ above, le first item)
      (hfrom' : ∀ item ∈ above, le second item) :
      (below ++ first :: second :: above).Pairwise le := by
    refine List.pairwise_append.mpr ⟨hsorted.sublist List.filter_sublist, ?_, ?_⟩
    · refine List.pairwise_cons.mpr ⟨List.forall_mem_cons.mpr ⟨hfirst, hfrom⟩, ?_⟩
      exact List.pairwise_cons.mpr ⟨hfrom', hsorted.sublist List.filter_sublist⟩
    · intro item hitem
      refine List.forall_mem_cons.mpr ⟨hto item hitem, List.forall_mem_cons.mpr
        ⟨hto' item hitem, fun later hlater ↦ ?_⟩⟩
      exact IsTrans.trans _ _ _ (hbelow item hitem) (habove later hlater)
  have hbelow' : ∀ item ∈ below, le item other := fun item hitem ↦
    IsTrans.trans _ _ _ (hbelow item hitem) hle
  have habove' : ∀ item ∈ above, le other item := fun item hitem ↦
    IsTrans.trans _ _ _ hge (habove item hitem)
  refine ⟨below, above, ?_, hpair hle hbelow hbelow' habove habove',
    hpair hge hbelow' hbelow habove' habove⟩
  exact (List.perm_middle.trans (List.perm_middle.cons one)).trans ((hperm.cons other).cons one)

/-- Every sorted arrangement of the list joins to the same word. -/
def SortFree (le : α → α → Prop) (word : α → List β) (items : List α) : Prop :=
  ∀ first second : List α, first.Perm items → second.Perm items → first.Pairwise le →
    second.Pairwise le → first.flatMap word = second.flatMap word

/-- The sorted arrangements of a list join to one word exactly if tied words commute. -/
theorem sortFree_iff {items : List α} : SortFree le word items ↔ TiesCommute le word items := by
  classical
  constructor
  · intro hfree one hone other hother hle hge
    by_cases hsame : one = other
    · rw [hsame]
    · have hmem : other ∈ items.erase one := (List.mem_erase_of_ne (Ne.symm hsame)).mpr hother
      have hsplit : (one :: other :: (items.erase one).erase other).Perm items :=
        ((List.perm_cons_erase hmem).symm.cons one).trans (List.perm_cons_erase hone).symm
      obtain ⟨before, after, hperm, hsorted, hswapped⟩ :=
        exists_sorted_adjacent hle hge ((items.erase one).erase other)
      have hswap : (before ++ other :: one :: after).Perm (before ++ one :: other :: after) :=
        (List.Perm.swap one other after).append_left before
      have hjoin := hfree _ _ (hperm.trans hsplit) ((hswap.trans hperm).trans hsplit) hsorted
        hswapped
      simp only [List.flatMap_append, List.flatMap_cons, ← List.append_assoc,
        List.append_cancel_right_eq] at hjoin
      simpa only [List.append_assoc, List.append_cancel_left_eq] using hjoin
  · intro hties first second hfirst hsecond hsorted hsorted'
    refine flatMap_eq_of_ties_commute (hfirst.trans hsecond.symm) hsorted hsorted' ?_
    exact fun one hone other hother ↦
      hties one (hfirst.mem_iff.mp hone) other (hfirst.mem_iff.mp hother)

end Swap

end Ties
