import Tollgate.Library.Words
import Tollgate.Net.CounterNames
import Tollgate.Net.Wallet

/-!
# Who is behind an address

Two tables of the host name the hardware address behind an Internet address: the kernel's neighbour
table, which `parse_arp_mac` of `adapter.rs` reads, and the leases of the DHCP server, which
`DhcpLeasesResolver` of `mac_resolver.rs` reads. Both are text in columns, and both readers compare
addresses as text, so an entry is found exactly if no two addresses are printed alike.
-/

set_option autoImplicit false
set_option relaxedAutoImplicit false

namespace Tollgate

open Text

/-! ### Addresses as text -/

namespace IpAddr

open Addresses

theorem dot_mem_showV4 (octets : Vector UInt8 4) : '.' ∈ showV4 octets := by
  obtain ⟨first, second, rest, htexts⟩ : ∃ first second rest,
      octets.toList.map decimal = first :: second :: rest := by
    have hlength : (octets.toList.map decimal).length = 4 := by
      rw [List.length_map, Vector.length_toList]
    match octets.toList.map decimal, hlength with
    | first :: second :: rest, _ => exact ⟨first, second, rest, rfl⟩
  rw [showV4, htexts, List.intercalate_cons_cons]
  exact List.mem_append_left _ (List.mem_append_right _ (List.mem_singleton_self _))

theorem dot_notMem_showGroups (groups : List ℕ) : '.' ∉ showGroups groups := by
  intro hdot
  rcases mem_intercalate hdot with hcolon | ⟨text, htext, hmem⟩
  · exact absurd hcolon (by decide)
  · obtain ⟨group, -, rfl⟩ := List.mem_map.mp htext
    exact absurd (isAlphanum_of_mem_toDigits (by decide) (by decide) hmem) (by decide)

/-- Addresses that read alike in an identifier are printed differently: one with dots, one
without. -/
theorem toText_ne_of_readAlike {first second : IpAddr} (halike : ReadAlike first second) :
    first.toText ≠ second.toText := by
  cases first with
  | v4 octets => exact halike.elim
  | v6 dotted =>
    cases second with
    | v4 octets => exact halike.elim
    | v6 plain =>
      obtain ⟨mapped, hmapped, -, hgroups⟩ := halike
      have hplain : toIpv4Mapped plain = none := by
        rw [Option.eq_none_iff_forall_not_mem]
        intro other hother
        have hfront := congrArg (List.take 4) (take_segments_of_mapped hother)
        have hsegments := congrArg (List.take 4) hgroups
        rw [List.take_take, show min 4 6 = 4 from rfl] at hfront
        rw [← List.map_take, hfront, List.take_append_of_le_length (by decide)] at hsegments
        exact absurd hsegments (by decide)
      have hdotted : '.' ∈ showV6 dotted := by
        unfold showV6
        rw [hmapped]
        exact List.mem_append_right _ (dot_mem_showV4 mapped)
      have hnodot : '.' ∉ showV6 plain := by
        unfold showV6
        rw [hplain]
        simp only
        split_ifs
        · simp [dot_notMem_showGroups]
        · exact dot_notMem_showGroups _
      intro hsame
      have htexts : showV6 dotted = showV6 plain := hsame
      exact hnodot (htexts ▸ hdotted)

/-- No two addresses are printed alike. -/
theorem toText_injective : Function.Injective toText := by
  intro first second hsame
  have hkey : first.key = second.key := by rw [key, key, hsame]
  rcases (key_eq_key_iff first second).mp hkey with heq | halike | halike
  · exact heq
  · exact absurd hsame (toText_ne_of_readAlike halike)
  · exact absurd hsame.symm (toText_ne_of_readAlike halike)

theorem toText_ne_nil (ip : IpAddr) : ip.toText ≠ [] := by
  cases ip with
  | v4 octets => exact List.ne_nil_of_mem (dot_mem_showV4 octets)
  | v6 octets =>
    show showV6 octets ≠ []
    unfold showV6
    split
    · exact List.cons_ne_nil _ _
    · simp only
      split_ifs
      · simp
      · have hlength := length_segments octets
        unfold showGroups
        cases hgroups : segments octets with
        | nil => simp [hgroups] at hlength
        | cons group rest =>
          cases rest with
          | nil => simp [hgroups] at hlength
          | cons next more => simp

/-- A letter or a numeral is no white space. -/
theorem isWhiteSpace_of_isAlphanum {char : Char} (hchar : char.isAlphanum = true) :
    isWhiteSpace char = false := by
  have hrange : 0x30 ≤ char.toNat ∧ char.toNat ≤ 0x7a := by
    simp only [Char.isAlphanum, Char.isAlpha, Char.isUpper, Char.isLower, Char.isDigit,
      Bool.or_eq_true, Bool.and_eq_true, decide_eq_true_eq, UInt32.le_iff_toNat_le] at hchar
    have hval : char.toNat = char.val.toNat := rfl
    simp at hchar
    omega
  simp [isWhiteSpace]
  omega

/-- An address is printed in the characters of identifiers and the two separators. -/
theorem inIdentifier_or_of_mem_toText {ip : IpAddr} {char : Char} (hchar : char ∈ ip.toText) :
    InIdentifier char ∨ char = '.' ∨ char = ':' := by
  by_cases hseparator : char = '.' ∨ char = ':'
  · exact Or.inr hseparator
  · have hkey : char ∈ ip.key.toList := by
      rw [key, String.toList_ofList]
      exact List.mem_map.mpr ⟨char, hchar, if_neg hseparator⟩
    rw [toList_key] at hkey
    rcases mem_intercalate hkey with hunderscore | ⟨text, htext, hmem⟩
    · exact Or.inl (Or.inr hunderscore)
    · exact Or.inl (Or.inl (isAlphanum_of_mem_keyParts htext hmem))

/-- An address is one word. -/
theorem isWord_toText (ip : IpAddr) : IsWord isWhiteSpace ip.toText := by
  refine ⟨ip.toText_ne_nil, fun char hchar ↦ ?_⟩
  rcases inIdentifier_or_of_mem_toText hchar with (halphanum | rfl) | rfl | rfl
  · exact isWhiteSpace_of_isAlphanum halphanum
  · rfl
  · rfl
  · rfl

end IpAddr

/-! ### Reading the tables -/

/-- The hardware address of an entry that is not complete. -/
def incompleteMac : List Char :=
  "00:00:00:00:00:00".toList

/-- The loop of `parse_arp_mac`. The first line about the address decides, even if it ends early. -/
def searchArp (ip : List Char) : List (List Char) → Option (List Char)
  | [] => none
  | line :: rest =>
    match words isWhiteSpace line with
    | first :: columns =>
      if first = ip then
        (columns[2]?).bind fun mac ↦ if mac ≠ incompleteMac then some mac else none
      else searchArp ip rest
    | [] => searchArp ip rest

/-- `parse_arp_mac`. The first line is a heading. -/
def parseArpMac (arpTable ip : String) : Option String :=
  (searchArp ip.toList ((lines arpTable.toList).drop 1)).map String.ofList

inductive MacResolveError
  | notFound (ip : String)
  | io
  deriving DecidableEq, Repr

/-- The loop of `DhcpLeasesResolver::resolve`. Lines that are too short are passed over. -/
def searchLeases (ip : List Char) : List (List Char) → Option (List Char)
  | [] => none
  | line :: rest =>
    match words isWhiteSpace line with
    | _ :: mac :: address :: _ => if address = ip then some mac else searchLeases ip rest
    | [_, _] | [_] | [] => searchLeases ip rest

/-- `DhcpLeasesResolver::resolve`, from what is in the file of the leases, if it can be read. -/
def resolveLease (contents : Option String) (ip : String) : Except MacResolveError String :=
  match contents with
  | none => .error .io
  | some contents =>
    match searchLeases ip.toList (lines contents.toList) with
    | some mac => .ok (String.ofList mac)
    | none => .error (.notFound ip)

/-! ### The tables -/

/-- A blank between columns. -/
def IsColumnBlank (char : Char) : Prop :=
  char = ' ' ∨ char = '\t'

theorem IsColumnBlank.isWhiteSpace {char : Char} (hchar : IsColumnBlank char) :
    isWhiteSpace char = true := by
  obtain rfl | rfl := hchar <;> rfl

theorem IsColumnBlank.inLine {char : Char} (hchar : IsColumnBlank char) :
    char ≠ '\n' ∧ char ≠ '\r' := by
  obtain rfl | rfl := hchar <;> decide

/-- The blanks that pad a column. -/
structure Gap where
  blanks : List Char
  ne_nil : blanks ≠ []
  isBlank : ∀ char ∈ blanks, IsColumnBlank char

/-- What stands in a column. -/
structure TableCell where
  text : List Char
  isWord : IsWord isWhiteSpace text

/-- An address in its column. -/
def IpAddr.cell (ip : IpAddr) : TableCell where
  text := ip.toText
  isWord := ip.isWord_toText

/-- A line of a table: padded columns, and behind them anything that stays on the line. -/
structure TableLine where
  columns : List (TableCell × Gap)
  rest : List Char
  inLine : ∀ char ∈ rest, char ≠ '\n' ∧ char ≠ '\r'

namespace TableLine

variable (line : TableLine)

/-- The line as it is printed. -/
def text : List Char :=
  row (line.columns.map fun column ↦ (column.1.text, column.2.blanks)) ++ line.rest

theorem words_text : words isWhiteSpace line.text =
    line.columns.map (fun column ↦ column.1.text) ++ words isWhiteSpace line.rest := by
  have hcells : ∀ cell ∈ line.columns.map fun column ↦ (column.1.text, column.2.blanks),
      IsWord isWhiteSpace cell.1 ∧ cell.2 ≠ [] ∧ ∀ char ∈ cell.2, isWhiteSpace char = true := by
    intro cell hcell
    obtain ⟨column, -, rfl⟩ := List.mem_map.mp hcell
    exact ⟨column.1.isWord, column.2.ne_nil,
      fun char hchar ↦ (column.2.isBlank char hchar).isWhiteSpace⟩
  rw [text, words_row hcells, List.map_map]
  rfl

/-- A line holds no end of a line. -/
theorem inLine_text {char : Char} (hchar : char ∈ line.text) : char ≠ '\n' ∧ char ≠ '\r' := by
  rcases List.mem_append.mp hchar with hcolumns | hrest
  · obtain ⟨cell, hcell, hmem⟩ := List.mem_flatMap.mp hcolumns
    obtain ⟨column, -, rfl⟩ := List.mem_map.mp hcell
    rcases List.mem_append.mp hmem with htext | hblank
    · have hblack := column.1.isWord.2 char htext
      constructor <;> rintro rfl <;> exact absurd hblack (by decide)
    · exact (column.2.isBlank char hblank).inLine
  · exact line.inLine char hrest

end TableLine

/-- Lines of tables are read back one by one. -/
theorem lines_tableLines (table : List TableLine) :
    lines (ofLines (table.map TableLine.text)) = table.map TableLine.text := by
  rw [lines_ofLines]
  · rw [List.map_map]
    refine List.map_congr_left fun line _ ↦ ?_
    exact stripCr_eq_self fun char hchar ↦ (line.inLine_text hchar).2
  · intro text htext hmem
    obtain ⟨line, -, rfl⟩ := List.mem_map.mp htext
    exact (line.inLine_text hmem).1 rfl

/-- An entry of the neighbour table. -/
structure Neighbour where
  address : IpAddr
  behindAddress : Gap
  hwType : TableCell × Gap
  flags : TableCell × Gap
  mac : TableCell × Gap
  maskAndDevice : List Char
  inLine : ∀ char ∈ maskAndDevice, char ≠ '\n' ∧ char ≠ '\r'

/-- `IP address  HW type  Flags  HW address  Mask  Device`. -/
def Neighbour.line (neighbour : Neighbour) : TableLine where
  columns := [(neighbour.address.cell, neighbour.behindAddress), neighbour.hwType, neighbour.flags,
    neighbour.mac]
  rest := neighbour.maskAndDevice
  inLine := neighbour.inLine

/-- A lease. -/
structure DhcpLease where
  expiry : TableCell × Gap
  mac : TableCell × Gap
  address : IpAddr
  behindAddress : Gap
  hostnameAndClient : List Char
  inLine : ∀ char ∈ hostnameAndClient, char ≠ '\n' ∧ char ≠ '\r'

/-- `<expiry> <mac> <ip> <hostname> <client-id>`. -/
def DhcpLease.line (lease : DhcpLease) : TableLine where
  columns := [lease.expiry, lease.mac, (lease.address.cell, lease.behindAddress)]
  rest := lease.hostnameAndClient
  inLine := lease.inLine

/-! ### Tables are read back -/

theorem searchArp_lines (ip : IpAddr) (neighbours : List Neighbour) :
    searchArp ip.toText (neighbours.map fun neighbour ↦ neighbour.line.text) =
      (neighbours.find? fun neighbour ↦ decide (neighbour.address = ip)).bind fun neighbour ↦
        if neighbour.mac.1.text ≠ incompleteMac then some neighbour.mac.1.text else none := by
  induction neighbours with
  | nil => rfl
  | cons neighbour rest ih =>
    have hwords : words isWhiteSpace neighbour.line.text =
        neighbour.address.toText :: neighbour.hwType.1.text :: neighbour.flags.1.text ::
          neighbour.mac.1.text :: words isWhiteSpace neighbour.maskAndDevice :=
      neighbour.line.words_text
    rw [List.map_cons, searchArp, hwords]
    simp only [List.getElem?_cons_succ, List.getElem?_cons_zero, Option.bind_some]
    by_cases hsame : neighbour.address = ip
    · rw [if_pos (congrArg IpAddr.toText hsame), List.find?_cons_of_pos (by simpa using hsame),
        Option.bind_some]
    · rw [if_neg fun htext ↦ hsame (IpAddr.toText_injective htext),
        List.find?_cons_of_neg (by simpa using hsame), ih]

/-- For every heading and every neighbour table behind it, whatever the widths of its columns: the
hardware address found for an address is the one of its first entry, and none if there is no entry
or the first is not complete. -/
theorem parseArpMac_table (heading : TableLine) (neighbours : List Neighbour) (ip : IpAddr) :
    parseArpMac
        (String.ofList (ofLines
          (heading.text :: neighbours.map fun neighbour ↦ neighbour.line.text)))
        (String.ofList ip.toText) =
      ((neighbours.find? fun neighbour ↦ decide (neighbour.address = ip)).filter fun neighbour ↦
        decide (neighbour.mac.1.text ≠ incompleteMac)).map fun neighbour ↦
          String.ofList neighbour.mac.1.text := by
  have hlines := lines_tableLines (heading :: neighbours.map Neighbour.line)
  rw [List.map_cons, List.map_map] at hlines
  rw [parseArpMac, String.toList_ofList, String.toList_ofList]
  have hread : lines (ofLines (heading.text :: neighbours.map fun neighbour ↦
      neighbour.line.text)) = heading.text :: neighbours.map fun neighbour ↦ neighbour.line.text :=
    hlines
  rw [hread, List.drop_succ_cons, List.drop_zero, searchArp_lines]
  cases neighbours.find? fun neighbour ↦ decide (neighbour.address = ip) with
  | none => rfl
  | some neighbour => by_cases hcomplete : neighbour.mac.1.text = incompleteMac <;> simp [hcomplete]

/-- A padded column of a sample. -/
def sampleColumn (text : String) (width : ℕ)
    (hword : text.toList ≠ [] ∧ text.toList.all (fun char ↦ !isWhiteSpace char) = true) :
    TableCell × Gap :=
  (⟨text.toList, hword.1, fun char hchar ↦ by simpa using List.all_eq_true.mp hword.2 char hchar⟩,
    ⟨List.replicate (width + 1) ' ', by simp,
      fun _ hchar ↦ Or.inl (List.eq_of_mem_replicate hchar)⟩)

theorem inLine_of_all {text : String}
    (hinLine : text.toList.all (fun char ↦ decide (char ≠ '\n' ∧ char ≠ '\r')) = true) :
    ∀ char ∈ text.toList, char ≠ '\n' ∧ char ≠ '\r' :=
  fun char hchar ↦ of_decide_eq_true (List.all_eq_true.mp hinLine char hchar)

/-- An entry of the sample in the tests. -/
def sampleNeighbour (address : IpAddr) (flags mac : String)
    (hflags : flags.toList ≠ [] ∧ flags.toList.all (fun char ↦ !isWhiteSpace char) = true)
    (hmac : mac.toList ≠ [] ∧ mac.toList.all (fun char ↦ !isWhiteSpace char) = true) :
    Neighbour where
  address := address
  behindAddress := (sampleColumn "-" 5 (by decide)).2
  hwType := sampleColumn "0x1" 8 (by decide)
  flags := sampleColumn flags 8 hflags
  mac := sampleColumn mac 4 hmac
  maskAndDevice := "*        eth0".toList
  inLine := inLine_of_all (by decide)

/-- The sample of the tests: an entry, one that is not complete, and an address without one. -/
theorem parseArpMac_sample :
    let table := String.join (
      ["IP address       HW type     Flags       HW address            Mask     Device",
        "172.30.0.10      0x1         0x2         52:54:00:aa:bb:cc     *        eth0",
        "172.30.0.99      0x1         0x0         00:00:00:00:00:00     *        eth0"].map
          (· ++ "\n"))
    parseArpMac table "172.30.0.10" = some "52:54:00:aa:bb:cc" ∧
      parseArpMac table "172.30.0.99" = none ∧ parseArpMac table "10.1.2.3" = none := by
  intro table
  let heading : TableLine :=
    ⟨[], "IP address       HW type     Flags       HW address            Mask     Device".toList,
      inLine_of_all (by decide)⟩
  let neighbours : List Neighbour :=
    [sampleNeighbour (.v4 #v[172, 30, 0, 10]) "0x2" "52:54:00:aa:bb:cc" (by decide) (by decide),
      sampleNeighbour (.v4 #v[172, 30, 0, 99]) "0x0" "00:00:00:00:00:00" (by decide) (by decide)]
  have htable : table = String.ofList (ofLines
      (heading.text :: neighbours.map fun neighbour ↦ neighbour.line.text)) := by
    decide +kernel
  have hfound (ip : IpAddr) := parseArpMac_table heading neighbours ip
  rw [← htable] at hfound
  exact ⟨hfound (.v4 #v[172, 30, 0, 10]), hfound (.v4 #v[172, 30, 0, 99]),
    hfound (.v4 #v[10, 1, 2, 3])⟩

theorem searchLeases_lines (ip : IpAddr) (leases : List DhcpLease) :
    searchLeases ip.toText (leases.map fun lease ↦ lease.line.text) =
      (leases.find? fun lease ↦ decide (lease.address = ip)).map fun lease ↦ lease.mac.1.text := by
  induction leases with
  | nil => rfl
  | cons lease rest ih =>
    have hwords : words isWhiteSpace lease.line.text =
        lease.expiry.1.text :: lease.mac.1.text :: lease.address.toText ::
          words isWhiteSpace lease.hostnameAndClient :=
      lease.line.words_text
    rw [List.map_cons, searchLeases, hwords]
    simp only
    by_cases hsame : lease.address = ip
    · rw [if_pos (congrArg IpAddr.toText hsame), List.find?_cons_of_pos (by simpa using hsame),
        Option.map_some]
    · rw [if_neg fun htext ↦ hsame (IpAddr.toText_injective htext),
        List.find?_cons_of_neg (by simpa using hsame), ih]

/-- For every file of leases: an address resolves to the hardware address of its first lease. -/
theorem resolveLease_file (leases : List DhcpLease) (ip : IpAddr) :
    resolveLease (some (String.ofList (ofLines (leases.map fun lease ↦ lease.line.text))))
        (String.ofList ip.toText) =
      match leases.find? fun lease ↦ decide (lease.address = ip) with
      | some lease => .ok (String.ofList lease.mac.1.text)
      | none => .error (.notFound (String.ofList ip.toText)) := by
  have hlines := lines_tableLines (leases.map DhcpLease.line)
  rw [List.map_map] at hlines
  have hread : lines (ofLines (leases.map fun lease ↦ lease.line.text)) =
      leases.map fun lease ↦ lease.line.text := hlines
  rw [resolveLease, String.toList_ofList, String.toList_ofList]
  simp only [hread, searchLeases_lines]
  cases leases.find? fun lease ↦ decide (lease.address = ip) <;> rfl

/-- A lease of a phone, and an address without one. -/
theorem resolveLease_sample :
    let contents := "1700000000 aa:bb:cc:dd:ee:ff 10.0.0.1 phone *\n"
    resolveLease (some contents) "10.0.0.1" = .ok "aa:bb:cc:dd:ee:ff" ∧
      resolveLease (some contents) "10.0.0.2" = .error (.notFound "10.0.0.2") := by
  intro contents
  let lease : DhcpLease :=
    ⟨sampleColumn "1700000000" 0 (by decide), sampleColumn "aa:bb:cc:dd:ee:ff" 0 (by decide),
      .v4 #v[10, 0, 0, 1], (sampleColumn "-" 0 (by decide)).2, "phone *".toList,
      inLine_of_all (by decide)⟩
  have hcontents : contents =
      String.ofList (ofLines ([lease].map fun lease ↦ lease.line.text)) := by
    decide +kernel
  have hresolved (ip : IpAddr) := resolveLease_file [lease] ip
  rw [← hcontents] at hresolved
  exact ⟨hresolved (.v4 #v[10, 0, 0, 1]), hresolved (.v4 #v[10, 0, 0, 2])⟩

end Tollgate
