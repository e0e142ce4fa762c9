import Tollgate.Library.Addresses
import Tollgate.Net.Enforcement

/-!
# The names of the byte counters

`counter_names` and `upstream_counter_name` of `adapter.rs`: the address as text, with an underscore
for each of its separators, behind a prefix for what is counted. The two separators become the same
character, and for one form of addresses this is one too few to tell them apart: the dotted numbers
at the end of a mapped address read like the groups of another.
-/

set_option autoImplicit false
set_option relaxedAutoImplicit false

namespace Tollgate

open Addresses

namespace IpAddr

/-- `IpAddr::to_string`. -/
def toText : IpAddr → List Char
  | v4 octets => showV4 octets
  | v6 octets => showV6 octets

/-- A character of an identifier. -/
def sanitize (char : Char) : Char :=
  if char = '.' ∨ char = ':' then '_' else char

/-- The address in an identifier. -/
def key (ip : IpAddr) : String :=
  String.ofList (ip.toText.map sanitize)

/-- `counter_names`. -/
def counterNames (ip : IpAddr) : String × String :=
  ("tg_d_" ++ ip.key, "tg_r_" ++ ip.key)

/-- `upstream_counter_name`. -/
def upstreamCounterName (ip : IpAddr) : String :=
  "tg_up_" ++ ip.key

/-- The names of all the counters of an address. -/
def names (ip : IpAddr) : List String :=
  [ip.counterNames.1, ip.counterNames.2, ip.upstreamCounterName]

/-! ### Keys -/

/-- What stands between the separators. -/
def keyParts : IpAddr → List (List Char)
  | v4 octets => octets.toList.map decimal
  | v6 octets => parts octets

theorem isAlphanum_of_mem_keyParts {ip : IpAddr} {text : List Char} {char : Char}
    (htext : text ∈ ip.keyParts) (hchar : char ∈ text) : char.isAlphanum = true := by
  cases ip with
  | v4 octets =>
    obtain ⟨octet, -, rfl⟩ := List.mem_map.mp htext
    exact isAlphanum_of_mem_toDigits (by decide) (by decide) hchar
  | v6 octets => exact isAlphanum_of_mem_parts htext hchar

theorem sanitize_of_isAlphanum {char : Char} (hchar : char.isAlphanum = true) :
    sanitize char = char := by
  refine if_neg ?_
  rintro (rfl | rfl) <;> exact absurd hchar (by decide)

/-- Texts with either separator between them are texts with an underscore between them. -/
theorem map_sanitize_intercalate {separator : Char} (hseparator : sanitize separator = '_')
    {texts : List (List Char)} (htexts : ∀ text ∈ texts, ∀ char ∈ text, char.isAlphanum = true) :
    (List.intercalate [separator] texts).map sanitize = List.intercalate ['_'] texts := by
  have htext {text : List Char} (hmem : text ∈ texts) : text.map sanitize = text :=
    (List.map_congr_left fun char hchar ↦
      sanitize_of_isAlphanum (htexts text hmem char hchar)).trans (List.map_id text)
  induction texts with
  | nil => rfl
  | cons text rest ih =>
    cases rest with
    | nil =>
      rw [List.intercalate_singleton, List.intercalate_singleton, htext List.mem_cons_self]
    | cons next more =>
      rw [List.intercalate_cons_cons, List.intercalate_cons_cons, List.map_append, List.map_append,
        ih (fun other hother ↦ htexts other (List.mem_cons_of_mem _ hother))
          (fun hother ↦ htext (List.mem_cons_of_mem _ hother)),
        htext List.mem_cons_self, List.map_singleton, hseparator]

theorem intercalate_append {separator : Char} {before after : List (List Char)}
    (hbefore : before ≠ []) (hafter : after ≠ []) :
    List.intercalate [separator] (before ++ after) =
      List.intercalate [separator] before ++ separator :: List.intercalate [separator] after := by
  induction before with
  | nil => exact absurd rfl hbefore
  | cons text rest ih =>
    cases rest with
    | nil =>
      rw [List.singleton_append, List.intercalate_cons_of_ne_nil hafter,
        List.intercalate_singleton, List.append_assoc, List.singleton_append]
    | cons next more =>
      rw [List.cons_append, List.cons_append, List.intercalate_cons_cons, ← List.cons_append,
        ih (List.cons_ne_nil _ _), List.intercalate_cons_cons, List.append_assoc, List.append_assoc,
        List.append_assoc]

theorem map_sanitize_showGroups (groups : List ℕ) :
    (showGroups groups).map sanitize = List.intercalate ['_'] (side groups) := by
  unfold side
  split_ifs with hempty
  · rw [hempty]
    rfl
  · refine map_sanitize_intercalate (by decide) fun text htext char hchar ↦ ?_
    obtain ⟨group, -, rfl⟩ := List.mem_map.mp htext
    exact isAlphanum_of_mem_toDigits (by decide) (by decide) hchar

theorem side_ne_nil (groups : List ℕ) : side groups ≠ [] := by
  unfold side
  split_ifs with hempty
  · exact List.cons_ne_nil _ _
  · simpa using hempty

/-- A key is its parts with underscores between them. -/
theorem toList_key (ip : IpAddr) : ip.key.toList = List.intercalate ['_'] ip.keyParts := by
  rw [key, String.toList_ofList]
  have hdotted (octets : Vector UInt8 4) :
      (showV4 octets).map sanitize = List.intercalate ['_'] (octets.toList.map decimal) :=
    map_sanitize_intercalate (by decide) fun text htext char hchar ↦ by
      have hpart : text ∈ (v4 octets).keyParts := htext
      exact isAlphanum_of_mem_keyParts hpart hchar
  cases ip with
  | v4 octets => exact hdotted octets
  | v6 octets =>
    unfold toText keyParts showV6 parts
    cases hmapped : toIpv4Mapped octets with
    | some mapped =>
      have hsome : mapped.toList.map decimal ≠ [] := by
        rw [← List.length_pos_iff, List.length_map, Vector.length_toList]
        decide
      have hmark : [':', ':', 'f', 'f', 'f', 'f', ':'].map sanitize =
          ['_', '_', 'f', 'f', 'f', 'f', '_'] := rfl
      simp only [hmapped]
      rw [List.map_append, hdotted, hmark, List.intercalate_cons_cons, List.intercalate_cons_cons,
        List.intercalate_cons_of_ne_nil hsome]
      rfl
    | none =>
      have hseparator : [':', ':'].map sanitize = ['_', '_'] := rfl
      simp only [hmapped]
      split_ifs with hzeroes
      · rw [List.map_append, List.map_append, map_sanitize_showGroups, map_sanitize_showGroups,
          hseparator, intercalate_append (side_ne_nil _) (List.cons_ne_nil _ _),
          List.intercalate_cons_of_ne_nil (side_ne_nil _), List.append_assoc]
        rfl
      · refine map_sanitize_intercalate (by decide) fun text htext char hchar ↦ ?_
        obtain ⟨group, -, rfl⟩ := List.mem_map.mp htext
        exact isAlphanum_of_mem_toDigits (by decide) (by decide) hchar

theorem keyParts_ne_nil (ip : IpAddr) : ip.keyParts ≠ [] := by
  intro hnil
  cases ip with
  | v4 octets =>
    have hlength := congrArg List.length hnil
    rw [keyParts, List.length_map, Vector.length_toList] at hlength
    exact absurd hlength (by decide)
  | v6 octets =>
    have hparts : parts octets = [] := hnil
    have hnone := nil_mem_parts_or octets
    rw [hparts] at hnone
    exact hnone.elim (absurd · List.not_mem_nil) fun hlength ↦ absurd hlength (by decide)

/-- One key, one list of parts. -/
theorem key_eq_iff (first second : IpAddr) :
    first.key = second.key ↔ first.keyParts = second.keyParts := by
  rw [← String.toList_inj, toList_key, toList_key]
  constructor
  · intro hsame
    have hsplit (ip : IpAddr) :
        (List.intercalate ['_'] ip.keyParts).splitOn '_' = ip.keyParts := by
      refine List.splitOn_intercalate _ (fun text htext hunderscore ↦ ?_) (keyParts_ne_nil ip)
      exact absurd (isAlphanum_of_mem_keyParts htext hunderscore) (by decide)
    rw [← hsplit first, hsame, hsplit]
  · intro hsame
    rw [hsame]

/-- The two are a mapped address and one whose groups read like its bytes. -/
def ReadAlike : IpAddr → IpAddr → Prop
  | v6 dotted, v6 plain => Addresses.ReadAlike dotted plain
  | v4 _, _ | v6 _, v4 _ => False

/-- An address of four bytes has a key of its own family. -/
theorem key_v4_ne_v6 (octets : Vector UInt8 4) (other : Vector UInt8 16) :
    (v4 octets).key ≠ (v6 other).key := by
  rw [Ne, key_eq_iff]
  intro hsame
  have hparts : octets.toList.map decimal = parts other := hsame
  rcases nil_mem_parts_or other with hempty | hlength
  · rw [← hparts] at hempty
    exact ne_nil_of_mem_map decimal_ne_nil hempty rfl
  · rw [← hparts, List.length_map, Vector.length_toList] at hlength
    exact absurd hlength (by decide)

/-- No two addresses have one key, but for those that read alike. -/
theorem key_eq_key_iff (first second : IpAddr) :
    first.key = second.key ↔
      first = second ∨ ReadAlike first second ∨ ReadAlike second first := by
  cases first with
  | v4 octets =>
    cases second with
    | v4 other =>
      rw [key_eq_iff]
      simp only [keyParts, ReadAlike, or_false, v4.injEq]
      rw [(List.map_injective_iff.mpr decimal_injective).eq_iff, Vector.toList_inj]
    | v6 other => simpa [ReadAlike] using key_v4_ne_v6 octets other
  | v6 octets =>
    cases second with
    | v4 other => simpa [ReadAlike] using (key_v4_ne_v6 other octets).symm
    | v6 other =>
      rw [key_eq_iff, v6.injEq]
      exact parts_eq_iff octets other

/-! ### Names -/

/-- Texts that differ in their fourth character go on differing. -/
theorem append_ne_append {left right : String} (first second : String)
    (hleft : 3 < left.toList.length) (hright : 3 < right.toList.length)
    (hdiffer : left.toList[3]? ≠ right.toList[3]?) : left ++ first ≠ right ++ second := by
  intro hsame
  have htexts := congrArg (fun text ↦ text.toList[3]?) hsame
  simp only [String.toList_append] at htexts
  rw [List.getElem?_append_left hleft, List.getElem?_append_left hright] at htexts
  exact hdiffer htexts

theorem names_nodup_iff (first second : IpAddr) :
    (first.names ++ second.names).Nodup ↔ first.key ≠ second.key := by
  have hdr (one other : String) : "tg_d_" ++ one ≠ "tg_r_" ++ other :=
    append_ne_append _ _ (by decide) (by decide) (by decide)
  have hdu (one other : String) : "tg_d_" ++ one ≠ "tg_up_" ++ other :=
    append_ne_append _ _ (by decide) (by decide) (by decide)
  have hru (one other : String) : "tg_r_" ++ one ≠ "tg_up_" ++ other :=
    append_ne_append _ _ (by decide) (by decide) (by decide)
  simp [names, counterNames, upstreamCounterName, hdr, hdu, hru,
    fun one other ↦ (hdr one other).symm,
    fun one other ↦ (hdu one other).symm, fun one other ↦ (hru one other).symm]

theorem mem_intercalate {separator char : Char} {texts : List (List Char)}
    (hchar : char ∈ List.intercalate [separator] texts) :
    char = separator ∨ ∃ text ∈ texts, char ∈ text := by
  induction texts with
  | nil => exact absurd hchar List.not_mem_nil
  | cons text rest ih =>
    cases rest with
    | nil =>
      rw [List.intercalate_singleton] at hchar
      exact Or.inr ⟨text, List.mem_cons_self, hchar⟩
    | cons next more =>
      rw [List.intercalate_cons_cons, List.mem_append, List.mem_append, List.mem_singleton] at hchar
      obtain (hhere | hbetween) | hlater := hchar
      · exact Or.inr ⟨text, List.mem_cons_self, hhere⟩
      · exact Or.inl hbetween
      · refine (ih hlater).imp_right ?_
        rintro ⟨other, hother, hmem⟩
        exact ⟨other, List.mem_cons_of_mem _ hother, hmem⟩

/-- A character of an identifier that `nft` takes. -/
def InIdentifier (char : Char) : Prop :=
  char.isAlphanum = true ∨ char = '_'

instance (char : Char) : Decidable (InIdentifier char) :=
  inferInstanceAs (Decidable (_ ∨ _))

theorem inIdentifier_of_mem_names {ip : IpAddr} {name : String} (hname : name ∈ ip.names) :
    ∀ char ∈ name.toList, InIdentifier char := by
  have hkey : ∀ char ∈ ip.key.toList, InIdentifier char := by
    intro char hchar
    rw [toList_key] at hchar
    rcases mem_intercalate hchar with hseparator | ⟨text, htext, hmem⟩
    · exact Or.inr hseparator
    · exact Or.inl (isAlphanum_of_mem_keyParts htext hmem)
  have happend {start : String} (hstart : start.toList.all (fun char ↦ InIdentifier char) = true) :
      ∀ char ∈ (start ++ ip.key).toList, InIdentifier char := by
    intro char hchar
    rw [String.toList_append, List.mem_append] at hchar
    exact hchar.elim (fun hmem ↦ of_decide_eq_true (List.all_eq_true.mp hstart char hmem))
      (hkey char)
  simp only [names, counterNames, upstreamCounterName, List.mem_cons, List.not_mem_nil,
    or_false] at hname
  obtain rfl | rfl | rfl := hname
  · exact happend (by decide)
  · exact happend (by decide)
  · exact happend (by decide)

/-- For any two addresses: the names of their counters are six different ones exactly if the
addresses do not read alike. And all names are identifiers. -/
theorem counter_names_distinct_iff {first second : IpAddr} (hne : first ≠ second) :
    ((first.names ++ second.names).Nodup ↔
      ¬ ReadAlike first second ∧ ¬ ReadAlike second first) ∧
    ∀ ip : IpAddr, ∀ name ∈ ip.names, ∀ char ∈ name.toList, InIdentifier char := by
  refine ⟨?_, fun ip name hname ↦ inIdentifier_of_mem_names hname⟩
  rw [names_nodup_iff, Ne, key_eq_key_iff, or_iff_right hne, not_or]

/-- Two addresses of one network. -/
theorem counter_names_distinct_of_neighbours :
    ((v4 #v[10, 0, 0, 5]).names ++ (v4 #v[10, 0, 0, 10]).names).Nodup :=
  (counter_names_distinct_iff (by decide)).1.mpr ⟨id, id⟩

/-- The address `::ffff:1.2.3.4` and the address `::ffff:1:2:3:4` have their counters in common. -/
theorem counters_shared :
    let dotted := v6 #v[0, 0, 0, 0, 0, 0, 0, 0, 0, 0, 0xff, 0xff, 1, 2, 3, 4]
    let plain := v6 #v[0, 0, 0, 0, 0, 0, 0xff, 0xff, 0, 1, 0, 2, 0, 3, 0, 4]
    dotted ≠ plain ∧ dotted.names = plain.names ∧ ¬ (dotted.names ++ plain.names).Nodup := by
  decide +kernel

end IpAddr

end Tollgate
