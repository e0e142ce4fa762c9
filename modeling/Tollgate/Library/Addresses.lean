import Mathlib

/-!
# Internet addresses as text

How Rust prints the addresses of both families. One of four bytes is four decimal numbers with dots
between them. One of sixteen bytes is eight hexadecimal numbers with colons, where the longest run
of zeros is left out if there are at least two of them (the first of two equally long ones); an
address that stands for one of the other family ends in the dotted form of that one.

`Addresses.parts` are the numbers with the separators taken away, an empty one where zeros are left
out. `expand` finds the groups again, so no two addresses of one form have the same parts.
-/

set_option autoImplicit false
set_option relaxedAutoImplicit false

namespace Tollgate

namespace Addresses

/-! ### Numbers -/

theorem digitChar_injective {first second : ℕ} (hfirst : first < 16) (hsecond : second < 16)
    (hsame : Nat.digitChar first = Nat.digitChar second) : first = second := by
  revert hsame
  revert second
  revert first
  decide

/-- No two numbers have the same digits. -/
theorem toDigits_injective {base : ℕ} (hone : 1 < base) (hbase : base ≤ 16) :
    Function.Injective (Nat.toDigits base) := by
  intro first
  induction first using Nat.strong_induction_on with
  | _ first ih =>
    intro second hsame
    have hpositive : 0 < base := Nat.zero_lt_of_lt hone
    have hdigit (number : ℕ) : number % base < 16 := (Nat.mod_lt _ hpositive).trans_le hbase
    by_cases hfirst : first < base
    · by_cases hsecond : second < base
      · rw [Nat.toDigits_of_lt_base hfirst, Nat.toDigits_of_lt_base hsecond] at hsame
        exact digitChar_injective (hfirst.trans_le hbase) (hsecond.trans_le hbase)
          (List.head_eq_of_cons_eq hsame)
      · rw [Nat.toDigits_of_lt_base hfirst,
          Nat.toDigits_of_base_le hone (Nat.not_lt.mp hsecond)] at hsame
        have hlength := congrArg List.length hsame
        simp at hlength
    · by_cases hsecond : second < base
      · rw [Nat.toDigits_of_lt_base hsecond,
          Nat.toDigits_of_base_le hone (Nat.not_lt.mp hfirst)] at hsame
        have hlength := congrArg List.length hsame
        simp at hlength
      · rw [Nat.toDigits_of_base_le hone (Nat.not_lt.mp hfirst),
          Nat.toDigits_of_base_le hone (Nat.not_lt.mp hsecond)] at hsame
        obtain ⟨hhigh, hlow⟩ := List.append_inj' hsame rfl
        have hquotient := ih (first / base)
          (Nat.div_lt_self (by omega) hone) hhigh
        have hrest := digitChar_injective (hdigit first) (hdigit second)
          (List.head_eq_of_cons_eq hlow)
        rw [← Nat.div_add_mod first base, ← Nat.div_add_mod second base, hquotient, hrest]

/-- Digits are letters and numerals. -/
theorem isAlphanum_of_mem_toDigits {base number : ℕ} {char : Char} (hone : 1 < base)
    (hbase : base ≤ 16) (hchar : char ∈ Nat.toDigits base number) : char.isAlphanum = true := by
  have hdigit : ∀ digit < 16, (Nat.digitChar digit).isAlphanum = true := by decide
  induction number using Nat.strong_induction_on with
  | _ number ih =>
    by_cases hsmall : number < base
    · rw [Nat.toDigits_of_lt_base hsmall, List.mem_singleton] at hchar
      exact hchar ▸ hdigit number (hsmall.trans_le hbase)
    · rw [Nat.toDigits_of_base_le hone (Nat.not_lt.mp hsmall), List.mem_append,
        List.mem_singleton] at hchar
      rcases hchar with hhigh | rfl
      · exact ih (number / base) (Nat.div_lt_self (by omega) hone) hhigh
      · exact hdigit _ ((Nat.mod_lt _ (by omega)).trans_le hbase)

/-! ### Printing -/

/-- A byte as it is printed between dots. -/
def decimal (octet : UInt8) : List Char :=
  Nat.toDigits 10 octet.toNat

/-- A group as it is printed between colons. -/
def hexadecimal (group : ℕ) : List Char :=
  Nat.toDigits 16 group

/-- An address of four bytes. -/
def showV4 (octets : Vector UInt8 4) : List Char :=
  ['.'].intercalate (octets.toList.map decimal)

/-- Bytes as numbers of two each. -/
def pairs : List UInt8 → List ℕ
  | high :: low :: rest => (256 * high.toNat + low.toNat) :: pairs rest
  | [_] | [] => []

/-- The eight groups of an address of sixteen bytes. -/
def segments (octets : Vector UInt8 16) : List ℕ :=
  pairs octets.toList

/-- The address of four bytes that one of sixteen stands for, as `to_ipv4_mapped` finds it. -/
def toIpv4Mapped (octets : Vector UInt8 16) : Option (Vector UInt8 4) :=
  if octets.toList.take 12 = [0, 0, 0, 0, 0, 0, 0, 0, 0, 0, 0xff, 0xff] then some (octets.drop 12)
  else none

/-- Some groups in a row. -/
structure Span where
  start : ℕ
  len : ℕ

/-- One more group: the longest run of zeros so far, and the one that goes on here. -/
def Span.next (spans : Span × Span) (indexed : ℕ × ℕ) : Span × Span :=
  if indexed.1 = 0 then
    let current : Span :=
      ⟨if spans.2.len = 0 then indexed.2 else spans.2.start, spans.2.len + 1⟩
    (if spans.1.len < current.len then current else spans.1, current)
  else (spans.1, ⟨0, 0⟩)

/-- The longest run of zeros. -/
def zeroSpan (groups : List ℕ) : Span :=
  (groups.zipIdx.foldl Span.next (⟨0, 0⟩, ⟨0, 0⟩)).1

/-- Groups with colons between them. -/
def showGroups (groups : List ℕ) : List Char :=
  [':'].intercalate (groups.map hexadecimal)

/-- An address of sixteen bytes. -/
def showV6 (octets : Vector UInt8 16) : List Char :=
  match toIpv4Mapped octets with
  | some mapped => [':', ':', 'f', 'f', 'f', 'f', ':'] ++ showV4 mapped
  | none =>
    let groups := segments octets
    let zeroes := zeroSpan groups
    if 1 < zeroes.len then
      showGroups (groups.take zeroes.start) ++ [':', ':'] ++
        showGroups (groups.drop (zeroes.start + zeroes.len))
    else showGroups groups

/-! ### The parts of the text -/

/-- What stands between the separators on one side of the zeros. -/
def side (groups : List ℕ) : List (List Char) :=
  if groups = [] then [[]] else groups.map hexadecimal

/-- The numbers between the separators, with an empty one for the zeros that are left out. -/
def parts (octets : Vector UInt8 16) : List (List Char) :=
  match toIpv4Mapped octets with
  | some mapped => [] :: [] :: ['f', 'f', 'f', 'f'] :: mapped.toList.map decimal
  | none =>
    let groups := segments octets
    let zeroes := zeroSpan groups
    if 1 < zeroes.len then
      side (groups.take zeroes.start) ++ [] :: side (groups.drop (zeroes.start + zeroes.len))
    else groups.map hexadecimal

/-- The groups, from the parts: as many zeros as are missing, at the first empty part. -/
def expand (texts : List (List Char)) : List (List Char) :=
  let before := texts.takeWhile (· ≠ [])
  let after := (texts.dropWhile (· ≠ [])).filter (· ≠ [])
  before ++ List.replicate (8 - before.length - after.length) ['0'] ++ after

/-! ### Groups -/

theorem pairs_append {first second : List UInt8} (heven : first.length % 2 = 0) :
    pairs (first ++ second) = pairs first ++ pairs second := by
  induction first using pairs.induct with
  | case1 high low rest ih =>
    rw [List.cons_append, List.cons_append, pairs, pairs, List.cons_append,
      ih (by simp at heven; omega)]
  | case2 octet => simp at heven
  | case3 => rfl

theorem length_pairs (octets : List UInt8) : (pairs octets).length = octets.length / 2 := by
  induction octets using pairs.induct with
  | case1 high low rest ih =>
    rw [pairs, List.length_cons, ih, List.length_cons, List.length_cons]
    omega
  | case2 octet => simp [pairs]
  | case3 => rfl

theorem pairs_injective {first second : List UInt8} (hlength : first.length = second.length)
    (heven : first.length % 2 = 0) (hsame : pairs first = pairs second) : first = second := by
  induction first using pairs.induct generalizing second with
  | case1 high low rest ih =>
    match second, hlength with
    | other :: less :: more, hlength =>
      rw [pairs, pairs, List.cons.injEq] at hsame
      have hlow := low.toNat_lt
      have hless := less.toNat_lt
      obtain rfl : high = other := UInt8.toNat_inj.mp (by omega)
      obtain rfl : low = less := UInt8.toNat_inj.mp (by omega)
      rw [ih (by simpa using hlength) (by simp at heven; omega) hsame.2]
  | case2 octet => simp at heven
  | case3 => exact (List.length_eq_zero_iff.mp hlength.symm).symm

@[simp] theorem length_segments (octets : Vector UInt8 16) : (segments octets).length = 8 := by
  rw [segments, length_pairs, Vector.length_toList]

theorem segments_injective : Function.Injective segments := fun first second hsame ↦
  Vector.toList_inj.mp (pairs_injective (by simp) (by simp) hsame)

theorem hexadecimal_injective : Function.Injective hexadecimal :=
  toDigits_injective (by decide) (by decide)

theorem decimal_injective : Function.Injective decimal := fun _ _ hsame ↦
  UInt8.toNat_inj.mp (toDigits_injective (by decide) (by decide) hsame)

/-- Two addresses that stand for the same one are the same. -/
theorem eq_of_toIpv4Mapped {first second : Vector UInt8 16} {mapped : Vector UInt8 4}
    (hfirst : toIpv4Mapped first = some mapped) (hsecond : toIpv4Mapped second = some mapped) :
    first = second := by
  unfold toIpv4Mapped at hfirst hsecond
  split_ifs at hfirst hsecond with htake hother
  have hdrop := congrArg Vector.toList
    ((Option.some.inj hfirst).trans (Option.some.inj hsecond).symm)
  rw [Vector.toList_drop, Vector.toList_drop] at hdrop
  rw [← Vector.toList_inj, ← List.take_append_drop 12 first.toList,
    ← List.take_append_drop 12 second.toList, htake, hother, hdrop]

/-! ### The zeros that are left out -/

/-- The groups of the span are there and are zero. -/
def IsRun (groups : List ℕ) (span : Span) : Prop :=
  span.start + span.len ≤ groups.length ∧
    ∀ index, span.start ≤ index → index < span.start + span.len → groups[index]? = some 0

theorem IsRun.concat {groups : List ℕ} {span : Span} (hrun : IsRun groups span) (group : ℕ) :
    IsRun (groups ++ [group]) span := by
  refine ⟨by have := hrun.1; simp; omega, fun index hstart hend ↦ ?_⟩
  rw [List.getElem?_append_left (hend.trans_le hrun.1)]
  exact hrun.2 index hstart hend

/-- A run up to the end of the groups goes on with a zero, and without one it starts there. -/
theorem IsRun.extend {groups : List ℕ} {span : Span} (hrun : IsRun groups span)
    (hend : span.len = 0 ∨ span.start + span.len = groups.length) :
    let start := if span.len = 0 then groups.length else span.start
    IsRun (groups ++ [0]) ⟨start, span.len + 1⟩ ∧
      start + (span.len + 1) = (groups ++ [0]).length := by
  have hlast : (groups ++ [0])[groups.length]? = some 0 := by simp
  rw [List.length_append, List.length_singleton]
  by_cases hempty : span.len = 0
  · simp only [hempty, if_true, Nat.zero_add]
    refine ⟨⟨by simp, fun index hstart hend ↦ ?_⟩, trivial⟩
    obtain rfl : index = groups.length := Nat.le_antisymm (Nat.le_of_lt_succ hend) hstart
    exact hlast
  · have hto := hend.resolve_left hempty
    simp only [hempty, if_false]
    refine ⟨⟨by simp; omega, fun index hstart hend ↦ ?_⟩, by omega⟩
    by_cases hindex : index < span.start + span.len
    · exact (hrun.concat 0).2 index hstart hindex
    · obtain rfl : index = groups.length := by simp only at hend; omega
      exact hlast

/-- The longest run is one, and the current one is one up to the end of the groups. -/
theorem isRun_foldl (groups : List ℕ) :
    IsRun groups (groups.zipIdx.foldl Span.next (⟨0, 0⟩, ⟨0, 0⟩)).1 ∧
      let current := (groups.zipIdx.foldl Span.next (⟨0, 0⟩, ⟨0, 0⟩)).2
      IsRun groups current ∧ (current.len = 0 ∨ current.start + current.len = groups.length) := by
  have hempty (groups : List ℕ) : IsRun groups ⟨0, 0⟩ :=
    ⟨Nat.zero_le _, fun index _ hend ↦ absurd hend (Nat.not_lt_zero index)⟩
  induction groups using List.reverseRecOn with
  | nil => exact ⟨hempty [], hempty [], Or.inl rfl⟩
  | append_singleton groups group ih =>
    rw [List.zipIdx_append, List.foldl_append]
    generalize groups.zipIdx.foldl Span.next (⟨0, 0⟩, ⟨0, 0⟩) = spans at *
    obtain ⟨hlongest, hcurrent, hend⟩ := ih
    simp only [Nat.zero_add, List.zipIdx_cons, List.zipIdx_nil, List.foldl_cons, List.foldl_nil,
      Span.next]
    by_cases hzero : group = 0
    · obtain ⟨hrun, hto⟩ := hcurrent.extend hend
      subst hzero
      rw [if_pos rfl]
      refine ⟨?_, hrun, Or.inr hto⟩
      by_cases hlonger : spans.1.len < spans.2.len + 1
      · rw [if_pos hlonger]
        exact hrun
      · rw [if_neg hlonger]
        exact hlongest.concat 0
    · rw [if_neg hzero]
      exact ⟨hlongest.concat group, hempty _, Or.inl rfl⟩

/-- The groups are those in front of the zeros, the zeros, and the others. -/
theorem take_zeroSpan (groups : List ℕ) :
    let zeroes := zeroSpan groups
    groups = groups.take zeroes.start ++ List.replicate zeroes.len 0 ++
        groups.drop (zeroes.start + zeroes.len) ∧
      zeroes.start + zeroes.len ≤ groups.length := by
  have hrun : IsRun groups (zeroSpan groups) := (isRun_foldl groups).1
  intro zeroes
  refine ⟨?_, hrun.1⟩
  have hzeros : (groups.drop zeroes.start).take zeroes.len = List.replicate zeroes.len 0 := by
    refine List.ext_getElem? fun index ↦ ?_
    by_cases hindex : index < zeroes.len
    · rw [List.getElem?_take_of_lt hindex, List.getElem?_drop, List.getElem?_replicate_of_lt hindex]
      exact hrun.2 _ (Nat.le_add_right _ _) (Nat.add_lt_add_left hindex _)
    · rw [List.getElem?_eq_none (by simp; omega), List.getElem?_eq_none (by simp; omega)]
  rw [← hzeros, ← List.drop_drop, List.append_assoc, List.take_append_drop, List.take_append_drop]

/-! ### Reading the parts -/

theorem hexadecimal_ne_nil (group : ℕ) : hexadecimal group ≠ [] :=
  Nat.toDigits_ne_nil

theorem decimal_ne_nil (octet : UInt8) : decimal octet ≠ [] :=
  Nat.toDigits_ne_nil

theorem ne_nil_of_mem_map {α : Type*} {print : α → List Char} (hprint : ∀ value, print value ≠ [])
    {values : List α} {text : List Char} (htext : text ∈ values.map print) : text ≠ [] := by
  obtain ⟨value, -, rfl⟩ := List.mem_map.mp htext
  exact hprint value

/-- Texts with an empty one after some that are not. -/
theorem expand_append {before after : List (List Char)} (hbefore : ∀ text ∈ before, text ≠ []) :
    expand (before ++ [] :: after) =
      before ++ List.replicate (8 - before.length - (after.filter (· ≠ [])).length) ['0'] ++
        after.filter (· ≠ []) := by
  have hall : ∀ text ∈ before, decide (text ≠ []) = true := fun text htext ↦
    decide_eq_true (hbefore text htext)
  rw [expand, List.takeWhile_append_of_pos hall, List.dropWhile_append_of_pos hall,
    List.takeWhile_cons_of_neg (by simp), List.dropWhile_cons_of_neg (by simp),
    List.filter_cons_of_neg (by simp), List.append_nil]

theorem filter_side (groups : List ℕ) :
    (side groups).filter (· ≠ []) = groups.map hexadecimal := by
  unfold side
  split_ifs with hempty
  · simp [hempty]
  · exact List.filter_eq_self.mpr fun text htext ↦
      decide_eq_true (ne_nil_of_mem_map hexadecimal_ne_nil htext)

/-- The parts of an address that is not dotted are those of its groups. -/
theorem expand_parts {octets : Vector UInt8 16} (hplain : toIpv4Mapped octets = none) :
    expand (parts octets) = (segments octets).map hexadecimal := by
  obtain ⟨hgroups, hlength⟩ := take_zeroSpan (segments octets)
  have height := length_segments octets
  unfold parts
  rw [hplain]
  simp only at hgroups hlength ⊢
  generalize segments octets = groups at *
  generalize zeroSpan groups = zeroes at *
  split_ifs with hzeroes
  · have hafter := filter_side (groups.drop (zeroes.start + zeroes.len))
    have hmissing : 8 - (groups.take zeroes.start).length -
        (groups.drop (zeroes.start + zeroes.len)).length = zeroes.len := by
      rw [List.length_take, List.length_drop]
      omega
    have hresult : (groups.take zeroes.start).map hexadecimal ++
        List.replicate (8 - (groups.take zeroes.start).length -
          (groups.drop (zeroes.start + zeroes.len)).length) ['0'] ++
        (groups.drop (zeroes.start + zeroes.len)).map hexadecimal = groups.map hexadecimal := by
      have hmap := congrArg (List.map hexadecimal) hgroups
      rw [List.map_append, List.map_append, List.map_replicate] at hmap
      rw [hmissing, hmap]
      rfl
    by_cases hbefore : groups.take zeroes.start = []
    · rw [side, if_pos hbefore, List.singleton_append, ← List.nil_append ([] :: _),
        expand_append (by simp), List.filter_cons_of_neg (by simp), hafter, List.length_map]
      rw [hbefore] at hresult
      simpa using hresult
    · rw [side, if_neg hbefore,
        expand_append fun text htext ↦ ne_nil_of_mem_map hexadecimal_ne_nil htext, hafter,
        List.length_map, List.length_map, hresult]
  · have hall : ∀ text ∈ groups.map hexadecimal, decide (text ≠ []) = true := fun text htext ↦
      decide_eq_true (ne_nil_of_mem_map hexadecimal_ne_nil htext)
    have hfull := List.takeWhile_eq_self_iff.mpr hall
    have hrest := List.dropWhile_eq_nil_iff.mpr hall
    rw [expand, hfull, hrest, List.length_map, height]
    simp

/-- Those of one that is are a run of three zeros, `ffff` and the four numbers. -/
theorem expand_parts_mapped {octets : Vector UInt8 16} {mapped : Vector UInt8 4}
    (hmapped : toIpv4Mapped octets = some mapped) :
    expand (parts octets) =
      [['0'], ['0'], ['0'], ['f', 'f', 'f', 'f']] ++ mapped.toList.map decimal := by
  have hafter : (mapped.toList.map decimal).filter (· ≠ []) = mapped.toList.map decimal :=
    List.filter_eq_self.mpr fun text htext ↦ decide_eq_true (ne_nil_of_mem_map decimal_ne_nil htext)
  unfold parts
  rw [hmapped]
  simp only
  rw [← List.nil_append ([] :: _), expand_append (by simp), List.filter_cons_of_neg (by simp),
    List.filter_cons_of_pos (by simp), hafter, List.length_cons, List.length_map,
    Vector.length_toList]
  rfl

/-- The parts are letters and numerals. -/
theorem isAlphanum_of_mem_parts {octets : Vector UInt8 16} {text : List Char} {char : Char}
    (htext : text ∈ parts octets) (hchar : char ∈ text) : char.isAlphanum = true := by
  have hgroup {groups : List ℕ} (hmem : text ∈ groups.map hexadecimal) :
      char.isAlphanum = true := by
    obtain ⟨group, -, rfl⟩ := List.mem_map.mp hmem
    exact isAlphanum_of_mem_toDigits (by decide) (by decide) hchar
  have hside {groups : List ℕ} (hmem : text ∈ side groups) : char.isAlphanum = true := by
    refine hgroup ((filter_side groups).symm ▸ List.mem_filter.mpr ⟨hmem, ?_⟩ :
      text ∈ groups.map hexadecimal)
    exact decide_eq_true (List.ne_nil_of_mem hchar)
  unfold parts at htext
  split at htext
  · next mapped _ =>
    rw [List.mem_cons, List.mem_cons, List.mem_cons, List.mem_map] at htext
    obtain rfl | rfl | rfl | ⟨octet, -, rfl⟩ := htext
    · exact absurd hchar (by simp)
    · exact absurd hchar (by simp)
    · obtain rfl : char = 'f' := by simpa using hchar
      rfl
    · exact isAlphanum_of_mem_toDigits (by decide) (by decide) hchar
  · simp only at htext
    split_ifs at htext
    · rw [List.mem_append, List.mem_cons] at htext
      obtain hmem | rfl | hmem := htext
      · exact hside hmem
      · exact absurd hchar (by simp)
      · exact hside hmem
    · exact hgroup htext

/-- Either there are eight of them or zeros are left out. -/
theorem nil_mem_parts_or (octets : Vector UInt8 16) :
    [] ∈ parts octets ∨ (parts octets).length = 8 := by
  unfold parts
  split
  · exact Or.inl List.mem_cons_self
  · simp only
    split_ifs
    · exact Or.inl (List.mem_append_right _ List.mem_cons_self)
    · exact Or.inr (by rw [List.length_map, length_segments])

/-! ### Addresses with the same parts -/

/-- The one stands for an address of four bytes, not all of them zero. The other has `ffff` in the
fourth place after three zeros, and behind it groups that read like the four bytes. -/
def ReadAlike (dotted plain : Vector UInt8 16) : Prop :=
  ∃ mapped, toIpv4Mapped dotted = some mapped ∧ mapped.toList ≠ [0, 0, 0, 0] ∧
    (segments plain).map hexadecimal =
      [['0'], ['0'], ['0'], ['f', 'f', 'f', 'f']] ++ mapped.toList.map decimal

theorem take_segments_of_mapped {octets : Vector UInt8 16} {mapped : Vector UInt8 4}
    (hmapped : toIpv4Mapped octets = some mapped) :
    (segments octets).take 6 = [0, 0, 0, 0, 0, 0xffff] := by
  unfold toIpv4Mapped at hmapped
  split_ifs at hmapped with htake
  rw [segments, ← List.take_append_drop 12 octets.toList, htake, pairs_append (by decide)]
  rfl

/-- Three zeros in front are the longest run, unless all four groups at the end are zero. -/
theorem zeroSpan_of_front {groups : List ℕ} (hlength : groups.length = 4)
    (hsome : groups ≠ [0, 0, 0, 0]) :
    zeroSpan ([0, 0, 0, 0xffff] ++ groups) = ⟨0, 3⟩ := by
  match groups, hlength with
  | [first, second, third, fourth], _ =>
    by_cases hfirst : first = 0 <;> by_cases hsecond : second = 0 <;>
      by_cases hthird : third = 0 <;> by_cases hfourth : fourth = 0 <;>
        simp_all [zeroSpan, Span.next]

/-- No two addresses have the same parts, but for those that read alike. -/
theorem parts_eq_iff (first second : Vector UInt8 16) :
    parts first = parts second ↔
      first = second ∨ ReadAlike first second ∨ ReadAlike second first := by
  have hinjective := List.map_injective_iff.mpr hexadecimal_injective
  -- a dotted address and one that is not
  have hmixed {dotted plain : Vector UInt8 16} {mapped : Vector UInt8 4}
      (hmapped : toIpv4Mapped dotted = some mapped) (hplain : toIpv4Mapped plain = none)
      (hsame : parts dotted = parts plain) : ReadAlike dotted plain := by
    have hexpand := congrArg expand hsame
    rw [expand_parts_mapped hmapped, expand_parts hplain] at hexpand
    refine ⟨mapped, hmapped, fun hzero ↦ ?_, hexpand.symm⟩
    rw [hzero] at hexpand
    have hsegments : segments plain = [0, 0, 0, 0xffff, 0, 0, 0, 0] := hinjective hexpand.symm
    rw [parts, parts, hmapped, hplain, hsegments] at hsame
    have hhead : some ([] : List Char) = some ['0'] := congrArg List.head? hsame
    exact absurd hhead (by decide)
  constructor
  · intro hsame
    cases hfirst : toIpv4Mapped first with
    | none =>
      cases hsecond : toIpv4Mapped second with
      | none =>
        have hexpand := congrArg expand hsame
        rw [expand_parts hfirst, expand_parts hsecond] at hexpand
        exact Or.inl (segments_injective (hinjective hexpand))
      | some mapped => exact Or.inr (Or.inr (hmixed hsecond hfirst hsame.symm))
    | some mapped =>
      cases hsecond : toIpv4Mapped second with
      | none => exact Or.inr (Or.inl (hmixed hfirst hsecond hsame))
      | some other =>
        have hexpand := congrArg expand hsame
        rw [expand_parts_mapped hfirst, expand_parts_mapped hsecond] at hexpand
        have hlists := List.map_injective_iff.mpr decimal_injective
          (List.append_cancel_left hexpand)
        obtain rfl := Vector.toList_inj.mp hlists
        exact Or.inl (eq_of_toIpv4Mapped hfirst hsecond)
  · have halike {dotted plain : Vector UInt8 16} (hreads : ReadAlike dotted plain) :
        parts dotted = parts plain := by
      obtain ⟨mapped, hmapped, hsome, hgroups⟩ := hreads
      obtain ⟨front, back, hsplit, hfront, hback⟩ := List.map_eq_append_iff.mp hgroups
      obtain rfl : front = [0, 0, 0, 0xffff] := hinjective hfront
      have hlength : back.length = 4 := by
        have hlengths := congrArg List.length hback
        rw [List.length_map, List.length_map, Vector.length_toList] at hlengths
        exact hlengths
      have hnonzero : back ≠ [0, 0, 0, 0] := by
        rintro rfl
        have hzeros : [0, 0, 0, 0].map decimal = mapped.toList.map decimal := hback
        exact hsome (List.map_injective_iff.mpr decimal_injective hzeros).symm
      have hplain : toIpv4Mapped plain = none := by
        rw [Option.eq_none_iff_forall_not_mem]
        intro other hother
        have htake := take_segments_of_mapped hother
        rw [hsplit] at htake
        exact absurd (congrArg (·[3]?) htake) (by simp)
      have hspan := zeroSpan_of_front hlength hnonzero
      rw [parts, parts, hmapped, hplain, hsplit]
      simp only [hspan]
      rw [if_pos (by decide), ← hback]
      rfl
    rintro (rfl | hreads | hreads)
    · rfl
    · exact halike hreads
    · exact (halike hreads).symm

end Addresses

end Tollgate
