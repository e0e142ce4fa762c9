import Tollgate.Library.Decimal
import Tollgate.Library.Places
import Tollgate.Net.WifiConnector

/-!
# The stations a cleanup deletes

`openwrt/wifi_connector.rs`, `cleanup_stale_stas_for_ssid`: the listing of the wireless
configuration goes through `grep -B1` with the network name in the pattern, then the lines that
mention `wifi-iface` are cut down to the references in them, and `uci delete` runs for each.

The line above a match is taken for the head of the section, but it is the line in front of the
`ssid` option, whatever that is. And a section without a name is listed by its place among those of
its type, which the deletions before it have changed. So the lines that are kept decide what goes:
each takes the section it is about, or, if that has no name, the one as many places further on as
are gone (`deletesExactly_iff`).

What `grep` selects by a pattern is a parameter.
-/

set_option autoImplicit false
set_option relaxedAutoImplicit false

namespace Tollgate

/-! ### The listing -/

/-- How `uci show` prints a value. -/
def shownValue : OpValue → List Char
  | .single value => (shQuote value).toList
  | .list items => [' '].intercalate (items.map fun item ↦ (shQuote item).toList)

/-- A type a section can have. -/
def isUciType (type : String) : Bool :=
  type ≠ "" && type.toList.all fun character ↦
    character.isAlphanum || character = '_' || character = '-'

/-- A section as `uci show` lists it: its options in order, each on a line of its own. -/
structure ShownSection where
  name : String
  type : String
  anonymous : Bool
  options : List (String × OpValue)
  named : isUciName name = true
  typed : isUciType type = true
  listed : ∀ option ∈ options, '\n' ∉ option.1.toList ++ shownValue option.2
  deriving DecidableEq

namespace ShownSection

variable (shown : ShownSection)

/-- The section without its options. -/
def toUci : UciSection := ⟨shown.name, shown.type, shown.anonymous, ∅⟩

/-- A station. -/
def isStation : Bool := shown.type = "wifi-iface"

/-- It has the network name. -/
def hasSsid (ssid : String) : Bool := shown.options.contains ("ssid", .single ssid)

/-- How `uci show` refers to a section: by its name, or by its place among those of its type. -/
def label (place : ℕ) : List Char :=
  if shown.anonymous then '@' :: (shown.type.toList ++ '[' :: (Decimal.digits place ++ [']']))
  else shown.name.toList

/-- The first line of a section. -/
def headLine (place : ℕ) : List Char :=
  "wireless".toList ++ '.' :: (shown.label place ++ '=' :: shown.type.toList)

/-- The line of an option. -/
def optionLine (place : ℕ) (option : String × OpValue) : List Char :=
  "wireless".toList ++ '.' :: (shown.label place ++ '.' ::
    (option.1.toList ++ '=' :: shownValue option.2))

/-- What `uci show` prints for a section. -/
def lines (place : ℕ) : List (List Char) :=
  shown.headLine place :: shown.options.map (shown.optionLine place)

end ShownSection

/-- The wireless configuration: sections with names of their own. -/
structure Wireless where
  sections : List ShownSection
  distinct : (sections.map (·.name)).Nodup

/-- A line of the listing, the section it is about, and its place among those of its type. -/
structure ShownLine where
  shown : ShownSection
  place : ℕ
  text : List Char

/-- The sections one after the other. -/
def shownLines (before : List ShownSection) : List ShownSection → List ShownLine
  | [] => []
  | shown :: rest =>
    let place := before.countP fun other ↦ other.type = shown.type
    (shown.lines place).map (⟨shown, place, ·⟩) ++ shownLines (before ++ [shown]) rest

/-! ### The pipeline -/

/-- `grep -B1`: the lines that are selected, each with the one before it. -/
def grepBefore (selects : List Char → Bool) : List (List Char) → List (List Char)
  | [] => []
  | [last] => if selects last then [last] else []
  | line :: next :: rest =>
    (if selects line || selects next then [line] else []) ++ grepBefore selects (next :: rest)

/-- `cut` by a delimiter; a line without it is printed whole. -/
def cut (delimiter : Char) (field : ℕ) (line : List Char) : List Char :=
  match line.splitOn delimiter with
  | [whole] => whole
  | parts => parts.getD field []

/-- A line the second `grep` lets through. -/
def mentionsStation (line : List Char) : Bool := decide ("wifi-iface".toList <:+: line)

/-- The rest of the pipeline: `grep wifi-iface`, both cuts, and the words of what is left. -/
def labelsOf (lines : List (List Char)) : List (List Char) :=
  (lines.filter mentionsStation).flatMap fun line ↦
    ((cut '=' 0 (cut '.' 1 line)).splitOnP fun character ↦
      character = ' ' || character = '\t').filter (· ≠ [])

/-- The words the loop runs over, from the lines `grep` selects by the pattern. -/
def cleanupLabels (selects : List Char → Bool) (sections : List ShownSection) : List (List Char) :=
  labelsOf (grepBefore selects ((shownLines [] sections).map (·.text)))

/-- `uci delete` of a section. -/
def deleteLabel (sections : List ShownSection) (label : List Char) : List ShownSection :=
  match resolve (sections.map ShownSection.toUci) (String.ofList label) with
  | some place => sections.eraseIdx place
  | none => sections

/-- The loop. -/
def deleteLabels (sections : List ShownSection) (labels : List (List Char)) : List ShownSection :=
  labels.foldl deleteLabel sections

/-- The cleanup deletes exactly the stations with the network name. -/
def DeletesExactly (selects : List Char → Bool) (ssid : String) (sections : List ShownSection) :
    Prop :=
  deleteLabels sections (cleanupLabels selects sections) =
    sections.filter fun shown ↦ !(shown.isStation && shown.hasSsid ssid)

/-! ### What its lines take -/

/-- The lines that are kept: they mention a station, and `grep` selects them or the next line. -/
def keptLines (selects : List Char → Bool) : List ShownLine → List ShownLine
  | [] => []
  | line :: rest =>
    if mentionsStation line.text && (selects line.text || rest.head?.any (selects ·.text)) then
      line :: keptLines selects rest
    else keptLines selects rest

/-- The places of the stations that are taken: one by its name, or the one as many places further
on as have been taken before. -/
def takenPlaces (lines : List ShownLine) : Finset ℕ :=
  lines.foldl (fun gone line ↦ Places.take gone (!line.shown.anonymous) line.place) ∅

/-- The lines that are kept are about stations, and take those with the network name. -/
structure TakesStations (selects : List Char → Bool) (ssid : String)
    (sections : List ShownSection) : Prop where
  stations : ∀ line ∈ keptLines selects (shownLines [] sections), line.shown.isStation = true
  places : ∀ entry ∈ (sections.filter ShownSection.isStation).zipIdx,
    (entry.2 ∈ takenPlaces (keptLines selects (shownLines [] sections)) ↔
      entry.1.hasSsid ssid = true)

/-! ### The labels -/

/-- A character of a reference. -/
def isLabelChar (character : Char) : Bool :=
  character.isAlphanum || character = '_' || character = '-' || character = '@' ||
    character = '[' || character = ']'

theorem isLabelChar_of_mem_label (shown : ShownSection) (place : ℕ) :
    ∀ character ∈ shown.label place, isLabelChar character = true := by
  have hname := shown.named
  have htype := shown.typed
  simp only [isUciName, isUciType, Bool.and_eq_true, List.all_eq_true] at hname htype
  intro character hmem
  unfold ShownSection.label at hmem
  split at hmem
  · simp only [List.mem_cons, List.mem_append, List.not_mem_nil, or_false] at hmem
    rcases hmem with rfl | hmem | rfl | hmem | rfl
    · rfl
    · have hchar := htype.2 character hmem
      simp only [Bool.or_eq_true] at hchar
      rcases hchar with (hchar | hchar) | hchar <;> simp_all [isLabelChar]
    · rfl
    · have hdigit : character.isDigit = true :=
        Nat.isDigit_of_mem_toDigits (by decide) (by decide) hmem
      simp [isLabelChar, Char.isAlphanum, hdigit]
    · rfl
  · have hchar := hname.2 character hmem
    simp only [Bool.or_eq_true] at hchar
    rcases hchar with hchar | hchar <;> simp [isLabelChar, hchar]

theorem notMem_label (shown : ShownSection) (place : ℕ) {character : Char}
    (hcharacter : isLabelChar character = false) : character ∉ shown.label place := by
  intro hmem
  rw [isLabelChar_of_mem_label shown place character hmem] at hcharacter
  exact absurd hcharacter (by simp)

theorem label_ne_nil (shown : ShownSection) (place : ℕ) : shown.label place ≠ [] := by
  have hname := shown.named
  unfold ShownSection.label
  split
  · simp
  · intro hnil
    rw [String.toList_eq_nil_iff] at hnil
    simp [isUciName, hnil] at hname

theorem notMem_type (shown : ShownSection) : '.' ∉ shown.type.toList := by
  have htype := shown.typed
  simp only [isUciType, Bool.and_eq_true, List.all_eq_true] at htype
  intro hmem
  exact absurd (htype.2 '.' hmem) (by decide)

/-- The second field starts behind the first delimiter. -/
theorem cut_second {delimiter : Char} {first : List Char} (hfirst : delimiter ∉ first)
    (rest : List Char) :
    cut delimiter 1 (first ++ delimiter :: rest) = (rest.splitOn delimiter).headD [] := by
  rw [cut, List.splitOn_append_cons_self_of_not_mem hfirst]
  cases hrest : rest.splitOn delimiter with
  | nil => exact absurd hrest (List.splitOn_ne_nil _ _)
  | cons second others => rfl

/-- The first ends in front of it. -/
theorem cut_first {delimiter : Char} {first : List Char} (hfirst : delimiter ∉ first) :
    cut delimiter 0 first = first ∧
      ∀ rest, cut delimiter 0 (first ++ delimiter :: rest) = first := by
  constructor
  · rw [cut, List.splitOn_eq_singleton hfirst]
  · intro rest
    rw [cut, List.splitOn_append_cons_self_of_not_mem hfirst]
    cases hrest : rest.splitOn delimiter with
    | nil => exact absurd hrest (List.splitOn_ne_nil _ _)
    | cons second others => rfl

/-- What the cuts leave of a line is the reference to its section. -/
theorem cut_of_mem_lines {shown : ShownSection} {place : ℕ} {line : List Char}
    (hline : line ∈ shown.lines place) : cut '=' 0 (cut '.' 1 line) = shown.label place := by
  have hdot : '.' ∉ shown.label place := notMem_label shown place (by decide)
  have hequals : '=' ∉ shown.label place := notMem_label shown place (by decide)
  have hwireless : '.' ∉ "wireless".toList := by decide +kernel
  rcases List.mem_cons.mp hline with hhead | hoption
  · have hfield : '.' ∉ shown.label place ++ '=' :: shown.type.toList := by
      simp [hdot, notMem_type shown]
    have hsecond := cut_second hwireless (shown.label place ++ '=' :: shown.type.toList)
    rw [List.splitOn_eq_singleton hfield] at hsecond
    have hcut : cut '.' 1 line = shown.label place ++ '=' :: shown.type.toList := by
      rw [hhead]
      exact hsecond
    rw [hcut]
    exact (cut_first hequals).2 _
  · obtain ⟨option, -, hoption⟩ := List.mem_map.mp hoption
    have hsecond := cut_second hwireless (shown.label place ++ '.' ::
      (option.1.toList ++ '=' :: shownValue option.2))
    rw [List.splitOn_append_cons_self_of_not_mem hdot] at hsecond
    have hcut : cut '.' 1 line = shown.label place := by
      rw [← hoption]
      exact hsecond
    rw [hcut]
    exact (cut_first hequals).1

/-- So a line that mentions a station gives the reference to its section, and no other nothing. -/
theorem labelsOf_cons {shown : ShownSection} {place : ℕ} {line : List Char}
    (hline : line ∈ shown.lines place) (rest : List (List Char)) :
    labelsOf (line :: rest) =
      (if mentionsStation line then [shown.label place] else []) ++ labelsOf rest := by
  have hblank : ∀ character ∈ shown.label place,
      (decide (character = ' ') || decide (character = '\t')) = false := by
    intro character hmem
    have hchar := isLabelChar_of_mem_label shown place character hmem
    simp only [Bool.or_eq_false_iff, decide_eq_false_iff_not]
    constructor <;> rintro rfl <;> exact absurd hchar (by decide)
  unfold labelsOf
  rw [List.filter_cons]
  split
  · rw [List.flatMap_cons, cut_of_mem_lines hline, List.splitOnP_eq_singleton hblank]
    simp [label_ne_nil]
  · rfl

/-- The words of the loop are the references of the lines that are kept. -/
theorem labelsOf_grepBefore (selects : List Char → Bool) {lines : List ShownLine}
    (hlines : ∀ line ∈ lines, line.text ∈ line.shown.lines line.place) :
    labelsOf (grepBefore selects (lines.map (·.text))) =
      (keptLines selects lines).map fun line ↦ line.shown.label line.place := by
  induction lines with
  | nil => rfl
  | cons line rest ih =>
    have hline := hlines line List.mem_cons_self
    have hrest := ih fun other hother ↦ hlines other (List.mem_cons_of_mem _ hother)
    have hkept : ∀ chosen : Bool, labelsOf (if chosen then [line.text] else []) =
        if (mentionsStation line.text && chosen) = true then [line.shown.label line.place]
        else [] := by
      intro chosen
      cases chosen with
      | false => simp [labelsOf]
      | true =>
        rw [if_pos rfl, labelsOf_cons hline, Bool.and_true]
        simp [labelsOf]
    have hsplit : grepBefore selects ((line :: rest).map (·.text)) =
        (if selects line.text || rest.head?.any (selects ·.text) then [line.text] else []) ++
          grepBefore selects (rest.map (·.text)) := by
      cases rest with
      | nil => simp [grepBefore]
      | cons next others => simp [grepBefore]
    have happend : ∀ first second : List (List Char),
        labelsOf (first ++ second) = labelsOf first ++ labelsOf second := by
      intro first second
      simp [labelsOf]
    rw [hsplit, happend, hkept, hrest, keptLines]
    split <;> rfl

/-! ### Deleting -/

/-- By name, at most the section with that name goes. -/
theorem deleteLabel_name {name : String} (hname : isUciName name = true)
    (sections : List ShownSection) :
    deleteLabel sections name.toList = sections.eraseP fun shown ↦ shown.name = name := by
  have hfound : resolve (sections.map ShownSection.toUci) (String.ofList name.toList) =
      sections.findIdx? fun shown ↦ shown.name = name := by
    rw [String.ofList_toList, resolve_name hname, List.findIdx?_map]
    rfl
  rw [deleteLabel, hfound, List.eraseP_eq_eraseIdx]
  cases sections.findIdx? fun shown ↦ decide (shown.name = name) <;> rfl

/-- A reference by place. -/
theorem resolve_place {type : String} (htype : isUciType type = true) (place : ℕ)
    (sections : List UciSection) :
    resolve sections (String.ofList
        ('@' :: (type.toList ++ '[' :: (Decimal.digits place ++ [']'])))) =
      nthOfType sections type place := by
  have hbracket : ∀ character ∈ type.toList, decide (character ≠ '[') = true := by
    simp only [isUciType, Bool.and_eq_true, List.all_eq_true] at htype
    intro character hmem
    rw [decide_eq_true_eq]
    rintro rfl
    exact absurd (htype.2 _ hmem) (by decide)
  have hdrop : (type.toList ++ '[' :: (Decimal.digits place ++ [']'])).dropWhile (· ≠ '[') =
      '[' :: (Decimal.digits place ++ [']']) := by
    rw [List.dropWhile_append_of_pos hbracket]
    rfl
  have htake : (type.toList ++ '[' :: (Decimal.digits place ++ [']'])).takeWhile (· ≠ '[') =
      type.toList := by
    rw [List.takeWhile_append_of_pos hbracket]
    simp
  have hindex : parseIndex (Decimal.digits place) = some (place : ℤ) := by
    have hread : parseNumber (Decimal.digits place) = some place := Decimal.ofDigits_digits place
    cases hdigits : Decimal.digits place with
    | nil => exact absurd hdigits Nat.toDigits_ne_nil
    | cons first rest =>
      have hfirst := Decimal.isDigit_of_digits hdigits
      rw [hdigits] at hread
      unfold parseIndex
      split
      · next heq =>
        rw [(List.cons.inj heq).1] at hfirst
        exact absurd hfirst (by decide)
      · rw [hread]
        rfl
  unfold resolve
  rw [String.toList_ofList]
  simp only [hdrop, htake, List.getLast?_concat, if_true, List.dropLast_concat, hindex,
    Option.bind_some, String.ofList_toList]

theorem placesOfType_cons (head : UciSection) (rest : List UciSection) {type : String}
    (htype : type ≠ "") :
    placesOfType (head :: rest) type =
      (if head.type = type then [0] else []) ++ (placesOfType rest type).map (· + 1) := by
  unfold placesOfType
  rw [List.length_cons, List.range_succ_eq_map, List.filter_cons, List.filter_map]
  by_cases hhead : head.type = type
  · simp [hhead, Function.comp_def]
  · simp [hhead, htype, Function.comp_def]

/-- The places of a type are as many as its sections, in order. -/
theorem getElem?_placesOfType (front : List UciSection) (element : UciSection)
    (back : List UciSection) {type : String} (htype : type ≠ "") (helement : element.type = type) :
    (placesOfType (front ++ element :: back) type)[front.countP (·.type = type)]? =
      some front.length := by
  induction front with
  | nil =>
    rw [List.nil_append, placesOfType_cons _ _ htype, if_pos helement]
    rfl
  | cons head rest ih =>
    rw [List.cons_append, placesOfType_cons _ _ htype]
    by_cases hhead : head.type = type
    · rw [if_pos hhead, List.countP_cons_of_pos (by simpa using hhead), List.singleton_append,
        List.getElem?_cons_succ, List.getElem?_map, ih]
      rfl
    · rw [if_neg hhead, List.countP_cons_of_neg (by simpa using hhead), List.nil_append,
        List.getElem?_map, ih]
      rfl

theorem length_placesOfType (sections : List UciSection) {type : String} (htype : type ≠ "") :
    (placesOfType sections type).length = sections.countP (·.type = type) := by
  induction sections with
  | nil => rfl
  | cons head rest ih =>
    rw [placesOfType_cons _ _ htype, List.length_append, List.length_map, ih]
    by_cases hhead : head.type = type
    · rw [if_pos hhead, List.countP_cons_of_pos (by simpa using hhead), List.length_singleton]
      omega
    · rw [if_neg hhead, List.countP_cons_of_neg (by simpa using hhead), List.length_nil]
      omega

section ByPlace

variable {type : String} (htype : isUciType type = true) (place : ℕ)

include htype

/-- By place, the section with that many of its type in front of it goes. -/
theorem deleteLabel_place {front back : List ShownSection} {element : ShownSection}
    (helement : element.type = type) (hfront : front.countP (·.type = type) = place) :
    deleteLabel (front ++ element :: back)
        ('@' :: (type.toList ++ '[' :: (Decimal.digits place ++ [']']))) = front ++ back := by
  have hnonempty : type ≠ "" := by
    rintro rfl
    exact absurd htype (by decide +kernel)
  have hcount : (front.map ShownSection.toUci).countP (·.type = type) = place := by
    rw [List.countP_map, ← hfront]
    rfl
  have hnth := getElem?_placesOfType (front.map ShownSection.toUci) element.toUci
    (back.map ShownSection.toUci) hnonempty helement
  rw [hcount, List.length_map] at hnth
  have hresolve : resolve ((front ++ element :: back).map ShownSection.toUci) (String.ofList
      ('@' :: (type.toList ++ '[' :: (Decimal.digits place ++ [']'])))) = some front.length := by
    rw [resolve_place htype, nthOfType, if_pos (Int.natCast_nonneg place), Int.toNat_natCast,
      List.map_append, List.map_cons, hnth]
  rw [deleteLabel, hresolve]
  simp [List.eraseIdx_append_of_length_le]

/-- Beyond the last one nothing goes. -/
theorem deleteLabel_beyond {sections : List ShownSection}
    (hsections : sections.countP (·.type = type) ≤ place) :
    deleteLabel sections ('@' :: (type.toList ++ '[' :: (Decimal.digits place ++ [']']))) =
      sections := by
  have hnonempty : type ≠ "" := by
    rintro rfl
    exact absurd htype (by decide +kernel)
  have hlength : (placesOfType (sections.map ShownSection.toUci) type).length ≤ place := by
    rw [length_placesOfType _ hnonempty, List.countP_map]
    exact hsections
  have hresolve : resolve (sections.map ShownSection.toUci) (String.ofList
      ('@' :: (type.toList ++ '[' :: (Decimal.digits place ++ [']'])))) = none := by
    rw [resolve_place htype, nthOfType, if_pos (Int.natCast_nonneg place), Int.toNat_natCast,
      List.getElem?_eq_none hlength]
  rw [deleteLabel, hresolve]

end ByPlace

/-- Deleting leaves part of what was there. -/
theorem deleteLabels_sublist (sections : List ShownSection) (labels : List (List Char)) :
    (deleteLabels sections labels).Sublist sections := by
  induction labels generalizing sections with
  | nil => exact List.Sublist.refl sections
  | cons label rest ih =>
    refine (ih _).trans ?_
    unfold deleteLabel
    split
    · exact List.eraseIdx_sublist sections _
    · exact List.Sublist.refl sections

/-! ### The lines of a configuration -/

/-- A line is about a section of the configuration, whose place it knows. -/
structure ShownLine.Belongs (sections : List ShownSection) (line : ShownLine) : Prop where
  text : line.text ∈ line.shown.lines line.place
  split : ∃ front back, sections = front ++ line.shown :: back ∧
    line.place = front.countP fun other ↦ other.type = line.shown.type

theorem belongs_of_mem_shownLines {before rest : List ShownSection} :
    ∀ line ∈ shownLines before rest, line.Belongs (before ++ rest) := by
  induction rest generalizing before with
  | nil => exact fun line hline ↦ absurd hline (by simp [shownLines])
  | cons shown others ih =>
    intro line hline
    rcases List.mem_append.mp hline with hown | hlater
    · obtain ⟨text, htext, rfl⟩ := List.mem_map.mp hown
      exact ⟨htext, before, others, rfl, rfl⟩
    · have hbelongs := ih line hlater
      rwa [List.append_assoc] at hbelongs

/-- Behind the sections before it a line has a place that counts those of its type. -/
theorem countP_le_place {before rest : List ShownSection} :
    ∀ line ∈ shownLines before rest,
      before.countP (fun other ↦ other.type = line.shown.type) ≤ line.place := by
  induction rest generalizing before with
  | nil => exact fun line hline ↦ absurd hline (by simp [shownLines])
  | cons shown others ih =>
    intro line hline
    rcases List.mem_append.mp hline with hown | hlater
    · obtain ⟨text, -, rfl⟩ := List.mem_map.mp hown
      exact Nat.le_refl _
    · have hcount := ih line hlater
      rw [List.countP_append] at hcount
      omega

/-- The places of a type only go up. -/
theorem pairwise_shownLines (before rest : List ShownSection) :
    (shownLines before rest).Pairwise fun first second ↦
      first.shown.type = second.shown.type → first.place ≤ second.place := by
  induction rest generalizing before with
  | nil => exact List.Pairwise.nil
  | cons shown others ih =>
    refine List.pairwise_append.mpr ⟨?_, ih (before ++ [shown]), ?_⟩
    · exact List.pairwise_map.mpr (List.pairwise_of_forall fun _ _ _ ↦ Nat.le_refl _)
    · intro first hfirst second hsecond htype
      obtain ⟨text, -, rfl⟩ := List.mem_map.mp hfirst
      have hcount := countP_le_place second hsecond
      rw [List.countP_append] at hcount
      have hown : shown.type = second.shown.type := htype
      show before.countP (fun other ↦ decide (other.type = shown.type)) ≤ second.place
      rw [hown]
      omega

theorem keptLines_sublist (selects : List Char → Bool) (lines : List ShownLine) :
    (keptLines selects lines).Sublist lines := by
  induction lines with
  | nil => exact List.Sublist.refl _
  | cons line rest ih =>
    rw [keptLines]
    split
    · exact ih.cons_cons line
    · exact ih.cons line

/-! ### What a run deletes -/

section Run

variable (config : Wireless) {gone : Finset ℕ} {line : ShownLine}

/-- What is left of the configuration after these stations are gone. -/
def Wireless.without (gone : Finset ℕ) : List ShownSection :=
  Places.without ShownSection.isStation gone 0 config.sections

variable {config}

/-- No other section has the name. -/
theorem Wireless.name_ne {front back : List ShownSection} {shown : ShownSection}
    (hsplit : config.sections = front ++ shown :: back) :
    ∀ other ∈ front ++ back, other.name ≠ shown.name := by
  have hdistinct := config.distinct
  rw [hsplit, List.map_append, List.map_cons, List.nodup_middle, List.nodup_cons,
    ← List.map_append] at hdistinct
  exact fun other hother hname ↦ hdistinct.1 (List.mem_map.mpr ⟨other, hother, hname⟩)

theorem Wireless.nodup : config.sections.Nodup := List.Nodup.of_map _ config.distinct

/-- A line about a station takes a station. -/
theorem deleteLabel_station (hbelongs : line.Belongs config.sections)
    (hstation : line.shown.isStation = true) (hbelow : Places.Below gone line.place) :
    deleteLabel (config.without gone) (line.shown.label line.place) =
      config.without (Places.take gone (!line.shown.anonymous) line.place) := by
  obtain ⟨front, back, hsplit, hplace⟩ := hbelongs.split
  have htype : line.shown.type = "wifi-iface" := by
    simpa [ShownSection.isStation] using hstation
  have hcount : front.countP ShownSection.isStation = line.place := by
    rw [hplace, htype]
    rfl
  unfold ShownSection.label
  cases hanonymous : line.shown.anonymous with
  | false =>
    rw [if_neg (by simp), deleteLabel_name line.shown.named]
    have hothers := config.name_ne hsplit
    have hfront : ∀ other ∈ Places.without ShownSection.isStation gone 0 front,
        ¬ decide (other.name = line.shown.name) = true := by
      intro other hother
      simpa using hothers other
        (List.mem_append_left _ ((Places.without_sublist front).subset hother))
    have hback : ∀ other ∈ Places.without ShownSection.isStation gone
        (front.countP ShownSection.isStation + 1) back,
          ¬ decide (other.name = line.shown.name) = true := by
      intro other hother
      simpa using hothers other
        (List.mem_append_right _ ((Places.without_sublist back).subset hother))
    have htaken : Places.take gone (!false) line.place =
        insert (front.countP ShownSection.isStation) gone := by
      rw [hcount]
      rfl
    unfold Wireless.without
    rw [htaken, hsplit, Places.without_insert hstation]
    by_cases hgone : front.countP ShownSection.isStation ∈ gone
    · rw [Places.without_of_mem hstation hgone]
      apply List.eraseP_of_forall_not
      intro other hother
      exact (List.mem_append.mp hother).elim (hfront other) (hback other)
    · rw [Places.without_of_notMem hstation hgone, List.eraseP_append_right _ hfront,
        List.eraseP_cons_of_pos (by simp)]
  | true =>
    rw [if_pos rfl]
    have htaken : Places.take gone (!true) line.place =
        insert (line.place + gone.card) gone := rfl
    have hisStation : ∀ sections : List ShownSection,
        sections.countP (fun other ↦ decide (other.type = line.shown.type)) =
          sections.countP ShownSection.isStation := by
      intro sections
      rw [htype]
      rfl
    unfold Wireless.without
    rw [htaken]
    by_cases hbeyond : config.sections.countP ShownSection.isStation ≤ line.place + gone.card
    · rw [Places.without_insert_beyond hbeyond]
      apply deleteLabel_beyond line.shown.typed
      rw [hisStation]
      exact hbelow.countP_all hbeyond
    · -- the station meant is further on, unless nothing is gone
      have hlength : line.place + gone.card <
          (config.sections.filter ShownSection.isStation).length := by
        rw [← List.countP_eq_length_filter]
        omega
      obtain ⟨front, back, hsplit, helement, hfront⟩ :=
        Places.exists_split (List.getElem?_eq_getElem hlength)
      have hgone : front.countP ShownSection.isStation ∉ gone := by
        rw [hfront]
        exact hbelow.notMem
      have hleft := hbelow.countP_front hfront
      rw [← hfront, hsplit, Places.without_insert helement,
        Places.without_of_notMem helement hgone]
      apply deleteLabel_place line.shown.typed
      · rw [htype]
        simpa [ShownSection.isStation] using helement
      · rw [hisStation]
        exact hleft

/-- A line about another section takes that. -/
theorem notMem_deleteLabel (hbelongs : line.Belongs config.sections)
    (hstation : line.shown.isStation = false) :
    line.shown ∉ deleteLabel (config.without gone) (line.shown.label line.place) := by
  obtain ⟨front, back, hsplit, hplace⟩ := hbelongs.split
  have hothers : line.shown ∉ front ++ back := fun hmem ↦
    config.name_ne hsplit line.shown hmem rfl
  have hdeleted : deleteLabel (config.without gone) (line.shown.label line.place) =
      Places.without ShownSection.isStation gone 0 front ++
        Places.without ShownSection.isStation gone (front.countP ShownSection.isStation)
          back := by
    unfold Wireless.without ShownSection.label
    rw [hsplit, Places.without_of_unmarked hstation]
    cases line.shown.anonymous with
    | false =>
      have hfront : ∀ other ∈ Places.without ShownSection.isStation gone 0 front,
          ¬ decide (other.name = line.shown.name) = true := by
        intro other hother
        simpa using config.name_ne hsplit other
          (List.mem_append_left _ ((Places.without_sublist front).subset hother))
      rw [if_neg (by simp), deleteLabel_name line.shown.named,
        List.eraseP_append_right _ hfront, List.eraseP_cons_of_pos (by simp)]
    | true =>
      rw [if_pos rfl]
      apply deleteLabel_place line.shown.typed _ rfl
      rw [hplace]
      apply Places.countP_without_of_unmarked
      intro other hother
      have hsame : other.type = line.shown.type := by simpa using hother
      rw [← hstation]
      unfold ShownSection.isStation
      rw [hsame]
  rw [hdeleted]
  have hsublist : (Places.without ShownSection.isStation gone 0 front ++
      Places.without ShownSection.isStation gone (front.countP ShownSection.isStation)
        back).Sublist (front ++ back) :=
    (Places.without_sublist front).append (Places.without_sublist back)
  exact fun hmem ↦ hothers (hsublist.subset hmem)

/-- So the lines about stations take their stations one after the other. -/
theorem deleteLabels_stations {lines : List ShownLine}
    (hbelongs : ∀ line ∈ lines, line.Belongs config.sections)
    (hstations : ∀ line ∈ lines, line.shown.isStation = true)
    (hpairwise : lines.Pairwise fun first second ↦
      first.shown.type = second.shown.type → first.place ≤ second.place)
    (hbelow : ∀ line ∈ lines, Places.Below gone line.place) :
    deleteLabels (config.without gone)
        (lines.map fun line ↦ line.shown.label line.place) =
      config.without (lines.foldl
        (fun gone line ↦ Places.take gone (!line.shown.anonymous) line.place) gone) := by
  induction lines generalizing gone with
  | nil => rfl
  | cons line rest ih =>
    obtain ⟨hlater, hrest⟩ := List.pairwise_cons.mp hpairwise
    have hstation := hstations line List.mem_cons_self
    have hstep := deleteLabel_station (hbelongs line List.mem_cons_self) hstation
      (hbelow line List.mem_cons_self)
    rw [List.map_cons, deleteLabels, List.foldl_cons, hstep, List.foldl_cons]
    apply ih (fun other hother ↦ hbelongs other (List.mem_cons_of_mem _ hother))
      (fun other hother ↦ hstations other (List.mem_cons_of_mem _ hother)) hrest
    intro other hother
    have htypes : line.shown.type = other.shown.type := by
      have hother := hstations other (List.mem_cons_of_mem _ hother)
      simp only [ShownSection.isStation, decide_eq_true_eq] at hstation hother
      rw [hstation, hother]
    exact ((hbelow line List.mem_cons_self).take _).mono (hlater other hother htypes)

end Run

/-! ### When that is right -/

variable {selects : List Char → Bool} {ssid : String} {config : Wireless}

theorem belongs_of_mem_keptLines :
    ∀ line ∈ keptLines selects (shownLines [] config.sections), line.Belongs config.sections :=
  fun line hline ↦ belongs_of_mem_shownLines line ((keptLines_sublist selects _).subset hline)

theorem cleanupLabels_eq (selects : List Char → Bool) (config : Wireless) :
    cleanupLabels selects config.sections =
      (keptLines selects (shownLines [] config.sections)).map fun line ↦
        line.shown.label line.place :=
  labelsOf_grepBefore selects fun line hline ↦ (belongs_of_mem_shownLines line hline).text

/-- If all lines that are kept are about stations, they take their stations and nothing else. -/
theorem deleteLabels_cleanup
    (hstations : ∀ line ∈ keptLines selects (shownLines [] config.sections),
      line.shown.isStation = true) :
    deleteLabels config.sections (cleanupLabels selects config.sections) =
      config.without (takenPlaces (keptLines selects (shownLines [] config.sections))) := by
  have hrun := deleteLabels_stations belongs_of_mem_keptLines hstations
    ((pairwise_shownLines [] config.sections).sublist (keptLines_sublist selects _))
    fun line _ ↦ Places.below_empty
  have hall : config.without ∅ = config.sections := Places.without_empty _
  rw [hall] at hrun
  rw [cleanupLabels_eq, hrun]
  rfl

/-- Otherwise a section that is no station goes. -/
theorem stations_of_deletesExactly (hexact : DeletesExactly selects ssid config.sections) :
    ∀ line ∈ keptLines selects (shownLines [] config.sections), line.shown.isStation = true := by
  have hbelongs : ∀ line ∈ keptLines selects (shownLines [] config.sections),
      line.Belongs config.sections := belongs_of_mem_keptLines
  have hpairwise := (pairwise_shownLines [] config.sections).sublist
    (keptLines_sublist selects _)
  unfold DeletesExactly at hexact
  rw [cleanupLabels_eq] at hexact
  generalize keptLines selects (shownLines [] config.sections) = lines
    at hbelongs hpairwise hexact
  cases hfind : lines.find? fun line ↦ !line.shown.isStation with
  | none =>
    intro line hline
    simpa using List.find?_eq_none.mp hfind line hline
  | some line =>
    -- the first line about another section finds it where it was
    obtain ⟨hline, front, back, rfl, hfront⟩ := List.find?_eq_some_iff_append.mp hfind
    have hother : line.shown.isStation = false := by simpa using hline
    have hstations := deleteLabels_stations
      (fun first hfirst ↦ hbelongs first (List.mem_append_left _ hfirst))
      (fun first hfirst ↦ by simpa using hfront first hfirst)
      (List.pairwise_append.mp hpairwise).1 fun first _ ↦ Places.below_empty
    have hall : config.without ∅ = config.sections := Places.without_empty _
    rw [hall] at hstations
    unfold deleteLabels at hexact hstations
    rw [List.map_append, List.map_cons, List.foldl_append, List.foldl_cons, hstations] at hexact
    have hkept : line.shown ∈ config.sections.filter fun shown ↦
        !(shown.isStation && shown.hasSsid ssid) := by
      obtain ⟨before, after, hsections, -⟩ := (hbelongs line (by simp)).split
      simp [hsections, hother]
    rw [← hexact] at hkept
    exact absurd ((deleteLabels_sublist _ _).subset hkept)
      (notMem_deleteLabel (hbelongs line (by simp)) hother)

/-- The cleanup deletes exactly the stations with the network name if and only if the lines it
keeps are about stations and take just those. -/
theorem deletesExactly_iff (selects : List Char → Bool) (ssid : String) (config : Wireless) :
    DeletesExactly selects ssid config.sections ↔ TakesStations selects ssid config.sections := by
  have hplaces : config.without (takenPlaces (keptLines selects (shownLines [] config.sections))) =
      config.sections.filter (fun shown ↦ !(shown.isStation && shown.hasSsid ssid)) ↔
        ∀ entry ∈ (config.sections.filter ShownSection.isStation).zipIdx,
          (entry.2 ∈ takenPlaces (keptLines selects (shownLines [] config.sections)) ↔
            entry.1.hasSsid ssid = true) := by
    unfold Wireless.without
    rw [Places.without_eq_filter_iff config.nodup fun shown hother ↦ by simp [hother]]
    constructor
    · intro hall entry hentry
      have helement := List.mem_zipIdx_iff_getElem?.mp hentry
      have hstation := (List.mem_filter.mp (List.mem_of_getElem? helement)).2
      simpa [hstation] using hall entry.2 entry.1 helement
    · intro hall place station helement
      have hstation := (List.mem_filter.mp (List.mem_of_getElem? helement)).2
      simpa [hstation] using hall (station, place) (List.mem_zipIdx_iff_getElem?.mpr helement)
  constructor
  · intro hexact
    have hstations := stations_of_deletesExactly hexact
    unfold DeletesExactly at hexact
    rw [deleteLabels_cleanup hstations] at hexact
    exact ⟨hstations, hplaces.mp hexact⟩
  · rintro ⟨hstations, htaken⟩
    unfold DeletesExactly
    rw [deleteLabels_cleanup hstations]
    exact hplaces.mpr htaken

/-! ### Sections with names -/

theorem mem_foldl_take {lines : List ShownLine}
    (hnamed : ∀ line ∈ lines, line.shown.anonymous = false) (gone : Finset ℕ) (place : ℕ) :
    place ∈ lines.foldl (fun gone line ↦ Places.take gone (!line.shown.anonymous) line.place) gone ↔
      place ∈ gone ∨ ∃ line ∈ lines, line.place = place := by
  induction lines generalizing gone with
  | nil => simp
  | cons line rest ih =>
    have hline := hnamed line List.mem_cons_self
    rw [List.foldl_cons, ih (fun other hother ↦ hnamed other (List.mem_cons_of_mem _ hother)),
      Places.take, hline, Finset.mem_insert]
    simp only [Bool.not_false, if_true, List.mem_cons, exists_eq_or_imp, eq_comm (a := place)]
    tauto

/-- A line about a station knows it by its place. -/
theorem ShownLine.Belongs.place_eq_iff {line : ShownLine} (hbelongs : line.Belongs config.sections)
    (hline : line.shown.isStation = true) {place : ℕ} {station : ShownSection}
    (hstation : (config.sections.filter ShownSection.isStation)[place]? = some station) :
    line.place = place ↔ line.shown = station := by
  have hown : (config.sections.filter ShownSection.isStation)[line.place]? = some line.shown := by
    obtain ⟨front, back, hsplit, hplace⟩ := hbelongs.split
    have htype : line.shown.type = "wifi-iface" := by
      simpa [ShownSection.isStation] using hline
    have hcount : line.place = front.countP ShownSection.isStation := by
      rw [hplace, htype]
      rfl
    rw [hcount, hsplit]
    exact Places.getElem?_filter_split hline
  constructor
  · rintro rfl
    exact Option.some.inj (hown.symm.trans hstation)
  · rintro rfl
    exact (List.getElem?_inj (List.getElem?_eq_some_iff.mp hown).1
      (config.nodup.filter _)).mp (hown.trans hstation.symm)

/-- If the sections have names, the cleanup is right exactly if the lines it keeps are those of the
stations with the network name: of each at least one, of the others none. -/
theorem deletesExactly_iff_of_named (selects : List Char → Bool) (ssid : String)
    {config : Wireless} (hnamed : ∀ shown ∈ config.sections, shown.anonymous = false) :
    DeletesExactly selects ssid config.sections ↔
      ∀ shown ∈ config.sections,
        (∃ line ∈ keptLines selects (shownLines [] config.sections), line.shown = shown) ↔
          (shown.isStation && shown.hasSsid ssid) = true := by
  have hbelongs : ∀ line ∈ keptLines selects (shownLines [] config.sections),
      line.Belongs config.sections := belongs_of_mem_keptLines
  have hmem : ∀ line ∈ keptLines selects (shownLines [] config.sections),
      line.shown ∈ config.sections := by
    intro line hline
    obtain ⟨front, back, hsplit, -⟩ := (hbelongs line hline).split
    simp [hsplit]
  have htaken : ∀ place, place ∈ takenPlaces (keptLines selects (shownLines [] config.sections)) ↔
      ∃ line ∈ keptLines selects (shownLines [] config.sections), line.place = place := by
    intro place
    unfold takenPlaces
    rw [mem_foldl_take fun line hline ↦ hnamed line.shown (hmem line hline)]
    simp
  -- a station is taken if and only if a line about it is kept
  have hstation : (∀ line ∈ keptLines selects (shownLines [] config.sections),
      line.shown.isStation = true) → ∀ place station,
        (config.sections.filter ShownSection.isStation)[place]? = some station →
          (place ∈ takenPlaces (keptLines selects (shownLines [] config.sections)) ↔
            ∃ line ∈ keptLines selects (shownLines [] config.sections), line.shown = station) := by
    intro hstations place station helement
    rw [htaken]
    constructor
    · rintro ⟨line, hline, hplace⟩
      exact ⟨line, hline, ((hbelongs line hline).place_eq_iff (hstations line hline)
        helement).mp hplace⟩
    · rintro ⟨line, hline, hshown⟩
      exact ⟨line, hline, ((hbelongs line hline).place_eq_iff (hstations line hline)
        helement).mpr hshown⟩
  rw [deletesExactly_iff]
  constructor
  · rintro ⟨hstations, hplaces⟩ shown hshown
    cases hkind : shown.isStation with
    | false =>
      constructor
      · rintro ⟨line, hline, rfl⟩
        rw [hstations line hline] at hkind
        exact absurd hkind (by simp)
      · simp
    | true =>
      obtain ⟨place, helement⟩ :=
        List.mem_iff_getElem?.mp (List.mem_filter.mpr ⟨hshown, hkind⟩)
      rw [← hstation hstations place shown helement, Bool.true_and]
      exact hplaces (shown, place) (List.mem_zipIdx_iff_getElem?.mpr helement)
  · intro hall
    have hstations : ∀ line ∈ keptLines selects (shownLines [] config.sections),
        line.shown.isStation = true := by
      intro line hline
      have hboth := (hall line.shown (hmem line hline)).mp ⟨line, hline, rfl⟩
      rw [Bool.and_eq_true] at hboth
      exact hboth.1
    refine ⟨hstations, fun entry hentry ↦ ?_⟩
    have helement := List.mem_zipIdx_iff_getElem?.mp hentry
    obtain ⟨hshown, hkind⟩ := List.mem_filter.mp (List.mem_of_getElem? helement)
    rw [hstation hstations entry.2 entry.1 helement, hall entry.1 hshown, hkind, Bool.true_and]

end Tollgate
