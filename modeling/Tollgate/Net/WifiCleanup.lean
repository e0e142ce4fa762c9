import Tollgate.Net.StaleStations

/-!
# Network names in shell commands

`openwrt/wifi_connector.rs`, `connect`: before it writes a station it deletes the stations with the
same network name, by a shell command with the name in it. The name is escaped for single quotes,
but stands between double quotes inside a command substitution, as part of a pattern for `grep`.

The commands of the station itself are read as they should be, whatever the name and the password
are (`staCommands_literal`). In the cleanup the name is read as it stands only if it is inert
between double quotes (`cleanup_literal_iff`). So both parts of it together, what is read and what
is deleted, come out right for just these names and the configurations in which the lines that are
kept take the stations with the name (`connect_contained_iff`).
-/

set_option autoImplicit false
set_option relaxedAutoImplicit false

namespace Tollgate

open Std

/-! ### The commands -/

/-- The cleanup up to the network name. -/
def cleanupHead : String := "for s in $(uci show wireless | grep -B1 \"ssid='"

/-- The cleanup behind the network name and the quotes around it. -/
def cleanupTail : String :=
  "\" | grep wifi-iface | cut -d. -f2 | cut -d= -f1); do " ++
    "uci delete wireless.$s 2>/dev/null || true; done"

/-- A network name with its single quotes escaped. -/
def escapeSsid (ssid : String) : String :=
  String.ofList (ssid.toList.flatMap fun character ↦
    if character = '\'' then "'\\''".toList else [character])

/-- The command of `cleanup_stale_stas_for_ssid`. -/
def cleanupCommand (ssid : String) : String :=
  cleanupHead ++ (escapeSsid ssid ++ "'") ++ cleanupTail

/-- The programs the cleanup is meant to run, in the order they are read. -/
def cleanupPrograms : List (List Char) :=
  ["uci", "grep", "grep", "cut", "cut", "uci", "true"].map String.toList

/-- The shell makes one simple command of a text, with nothing in it to be expanded. -/
def ReadsAs (command : String) (words : List String) : Prop :=
  ∃ read : List Shell.Word, Shell.segments command.toList = [⟨read, '\n'⟩] ∧
    read.map Shell.Word.text = words.map String.toList ∧
    ∀ word ∈ read, ∀ mark ∈ word, mark.isLiteral = true

/-- The arguments of `uci set` that write a station. -/
def staArguments (name radio ssid password : String) (encryption : EncryptionType) :
    List String :=
  ("wireless." ++ name ++ "=wifi-iface") ::
    (staValues radio ssid password encryption).flatMap fun (key, value) ↦
      (OpValue.elements (some value)).map fun text ↦
        "wireless." ++ name ++ "." ++ key ++ "=" ++ text

/-- No part of the network name or the password is anything but text: the commands of the station
set what they should, the cleanup runs its own programs, and the name in it is read as it stands. -/
structure ReadsLiterally (radio ssid password : String) (encryption : EncryptionType) : Prop where
  station : ∀ command ∈ renderShell (buildStaUciOps (staName radio) radio ssid password encryption),
    "# ".toList <+: command.toList ∨
      ∃ argument ∈ staArguments (staName radio) radio ssid password encryption,
        ReadsAs command ["uci", "set", argument]
  programs : Shell.commandNames (cleanupCommand ssid).toList = cleanupPrograms
  name : Shell.Reads (Shell.lexer.final .start cleanupHead.toList) (escapeSsid ssid ++ "'").toList
    ((escapeSsid ssid ++ "'").toList.map .quoted)
    (Shell.lexer.final .start cleanupHead.toList)

/-! ### How they are read -/

theorem lexer_cleanupHead :
    Shell.lexer.final .start cleanupHead.toList =
      .inDouble [.command true .parenthesis, .command true .text] := by
  decide +kernel

theorem toList_escapeSsid (ssid : String) :
    (escapeSsid ssid).toList = ssid.toList.flatMap Shell.escapeQuote := String.toList_ofList

/-- Escaping single quotes makes no difference between double quotes. -/
theorem inert_escapeQuote (text : List Char) :
    Shell.inert (text.flatMap Shell.escapeQuote) = Shell.inert text := by
  induction text with
  | nil => rfl
  | cons character rest ih =>
    have hhead : ∀ test : Char → Bool,
        (rest.flatMap Shell.escapeQuote).head?.any test = rest.head?.any test := by
      intro test
      cases rest with
      | nil => rfl
      | cons next others =>
        by_cases hquote : next = '\''
        · subst hquote
          rfl
        · simp [Shell.escapeQuote, hquote]
    rw [List.flatMap_cons]
    by_cases hquote : character = '\''
    · subst hquote
      have hescaped : Shell.escapeQuote '\'' = ['\'', '\\', '\'', '\''] := rfl
      rw [hescaped]
      simp [Shell.inert, ih, Shell.isEscapable]
    · have hkept : Shell.escapeQuote character = [character] := by
        simp [Shell.escapeQuote, hquote]
      rw [hkept, List.singleton_append, Shell.inert, Shell.inert, ih, hhead, hhead]

/-- In the cleanup the name is read as it stands exactly if it is inert. -/
theorem cleanup_literal_iff (ssid : String) :
    Shell.Reads (Shell.lexer.final .start cleanupHead.toList) (escapeSsid ssid ++ "'").toList
        ((escapeSsid ssid ++ "'").toList.map .quoted)
        (Shell.lexer.final .start cleanupHead.toList) ↔
      Shell.inert ssid.toList = true := by
  have htext : (escapeSsid ssid ++ "'").toList =
      ssid.toList.flatMap Shell.escapeQuote ++ ['\''] := by
    rw [String.toList_append, toList_escapeSsid]
    rfl
  rw [lexer_cleanupHead, htext, Shell.reads_inert_iff, inert_escapeQuote]

/-- The words around the name: the head of the loop, and `grep` with the pattern begun. -/
theorem reader_cleanupHead :
    Shell.reader.final ⟨.empty, []⟩ (Shell.lexer.outputs .start cleanupHead.toList) =
      ⟨⟨some (.quote :: "ssid='".toList.map .quoted),
          ["grep".toList.map .bare, "-B1".toList.map .bare], false⟩,
        [⟨some [.opens], ["for".toList.map .bare, "s".toList.map .bare, "in".toList.map .bare],
          false⟩]⟩ := by
  decide +kernel

/-- Behind the name the same programs are read, whatever the pattern is. -/
theorem reader_cleanupTail (pattern : Shell.Word) :
    (Shell.reader.outputs
        ⟨⟨some pattern, ["grep".toList.map .bare, "-B1".toList.map .bare], false⟩,
          [⟨some [.opens], ["for".toList.map .bare, "s".toList.map .bare, "in".toList.map .bare],
            false⟩]⟩
        (Shell.lexer.outputs (.inDouble [.command true .parenthesis, .command true .text])
          (cleanupTail.toList ++ ['\n']))).filterMap Shell.Segment.name? =
      ["grep", "grep", "cut", "cut", "uci", "true"].map String.toList := by
  rfl

/-- Then the cleanup runs its own programs. -/
theorem commandNames_cleanup {ssid : String} (hinert : Shell.inert ssid.toList = true) :
    Shell.commandNames (cleanupCommand ssid).toList = cleanupPrograms := by
  have hname := (cleanup_literal_iff ssid).mpr hinert
  have hmarks : ∀ mark ∈ (escapeSsid ssid ++ "'").toList.map Shell.Mark.quoted,
      mark.isInWord = true := by
    intro mark hmark
    obtain ⟨character, -, rfl⟩ := List.mem_map.mp hmark
    rfl
  have hnonempty : (escapeSsid ssid ++ "'").toList.map Shell.Mark.quoted ≠ [] := by
    simp [String.toList_append]
  have hread := Shell.read_word hnonempty hmarks (Shell.reader.final ⟨.empty, []⟩
    (Shell.lexer.outputs .start cleanupHead.toList))
  have hhead : (Shell.reader.outputs ⟨.empty, []⟩ (Shell.lexer.outputs .start
      cleanupHead.toList)).filterMap Shell.Segment.name? = ["uci".toList] := by
    decide +kernel
  have hsplit : (cleanupCommand ssid).toList ++ ['\n'] = cleanupHead.toList ++
      ((escapeSsid ssid ++ "'").toList ++ (cleanupTail.toList ++ ['\n'])) := by
    simp [cleanupCommand, String.toList_append]
  have hlexed : Shell.marks (cleanupCommand ssid).toList =
      Shell.lexer.outputs .start cleanupHead.toList ++
        ((escapeSsid ssid ++ "'").toList.map Shell.Mark.quoted ++
          Shell.lexer.outputs (.inDouble [.command true .parenthesis, .command true .text])
            (cleanupTail.toList ++ ['\n'])) := by
    rw [Shell.marks, hsplit, Transducer.outputs_append, Transducer.outputs_append, hname.outputs,
      hname.final, lexer_cleanupHead]
  rw [Shell.commandNames, Shell.segments, hlexed, Transducer.outputs_append,
    Transducer.outputs_append, hread.1, hread.2, List.nil_append, List.filterMap_append, hhead,
    reader_cleanupHead, reader_cleanupTail]
  rfl

/-! ### The commands of the station -/

/-- An assignment is read as two words and what is assigned. -/
theorem readsAs_set {path command argument : String} (value : String)
    (hpath : IsPathText path.toList)
    (hcommand : command.toList = "uci set ".toList ++ path.toList ++ '=' :: (shQuote value).toList)
    (hargument : argument.toList = path.toList ++ '=' :: value.toList) :
    ReadsAs command ["uci", "set", argument] := by
  have hverb : IsPathText "set".toList := ⟨by simp, by simp [isIdentifierChar]⟩
  have htaken := (taken_uci hverb).append_word (hpath.writes_assignment value)
  have hsplit : command.toList = "uci".toList ++ ' ' :: "set".toList ++ ' ' ::
      (path.toList ++ '=' :: (shQuote value).toList) := by
    simp [hcommand]
  refine ⟨_, by rw [hsplit, htaken.segments_eq], ?_, ?_⟩
  · simp only [List.map_append, List.map_cons, List.map_nil, text_assignment, Shell.text_map_bare]
    simp [hargument]
  · intro word hword
    simp only [List.mem_append, List.mem_cons, List.not_mem_nil, or_false] at hword
    rcases hword with (rfl | rfl) | rfl
    · exact fun mark hmark ↦ Shell.isLiteral_of_mem_map_bare hmark
    · exact fun mark hmark ↦ Shell.isLiteral_of_mem_map_bare hmark
    · exact (hpath.writes_assignment value).literal

theorem isPathText_staName {radio : String} (hradio : IsIdentifier radio) :
    IsPathText (staName radio).toList := by
  have hlist : (staName radio).toList = "sta_".toList ++ radio.toList := String.toList_append
  rw [hlist]
  refine ⟨by simp, fun character hmem ↦ ?_⟩
  rcases List.mem_append.mp hmem with hfixed | hmem
  · have hall : "sta_".toList.all isIdentifierChar = true := by simp [isIdentifierChar]
    exact List.all_eq_true.mp hall character hfixed
  · exact hradio.isPathText.valid character hmem

theorem single_of_mem_staValues {radio ssid password : String} {encryption : EncryptionType}
    {entry : String × OpValue} (hentry : entry ∈ staValues radio ssid password encryption) :
    ∃ text, entry.2 = .single text := by
  unfold staValues at hentry
  split at hentry
  · simp only [List.mem_append, List.mem_cons, List.not_mem_nil, or_false] at hentry
    rcases hentry with (rfl | rfl | rfl | rfl) | rfl <;> exact ⟨_, rfl⟩
  · simp only [List.mem_append, List.mem_cons, List.not_mem_nil, or_false] at hentry
    rcases hentry with (rfl | rfl | rfl | rfl) | rfl | rfl <;> exact ⟨_, rfl⟩

/-- Whatever the name and the password are, the commands of the station set them. -/
theorem staCommands_literal {radio : String} (hradio : IsIdentifier radio) (ssid password : String)
    (encryption : EncryptionType) :
    ∀ command ∈ renderShell (buildStaUciOps (staName radio) radio ssid password encryption),
      "# ".toList <+: command.toList ∨
        ∃ argument ∈ staArguments (staName radio) radio ssid password encryption,
          ReadsAs command ["uci", "set", argument] := by
  have hwireless : IsPathText "wireless".toList := ⟨by simp, by simp [isIdentifierChar]⟩
  have hname := isPathText_staName hradio
  have hnonempty : staName radio ≠ "" := by
    intro hempty
    exact hname.nonempty (by rw [hempty]; rfl)
  intro command hcommand
  simp only [renderShell, buildStaUciOps, List.flatMap_cons, List.flatMap_nil, List.append_nil,
    UciOp.render, hnonempty, if_false, List.singleton_append, List.mem_cons,
    List.mem_flatMap] at hcommand
  rcases hcommand with rfl | rfl | ⟨entry, hentry, hcommand⟩
  · left
    rw [String.toList_append]
    exact List.prefix_append _ _
  · right
    refine ⟨"wireless." ++ staName radio ++ "=wifi-iface", List.mem_cons_self, ?_⟩
    have hpath : IsPathText ("wireless." ++ staName radio).toList := by
      have happend := hwireless.append hname
      rw [String.toList_append]
      simpa using happend
    refine readsAs_set "wifi-iface" hpath ?_ ?_ <;> simp [String.toList_append]
  · right
    obtain ⟨text, htext⟩ := single_of_mem_staValues hentry
    have hkey := (keys_staValues radio ssid password encryption entry hentry).identifier.isPathText
    have hpath : IsPathText ("wireless." ++ staName radio ++ "." ++ entry.1).toList := by
      have happend := hwireless.append (hname.append hkey)
      simpa [String.toList_append] using happend
    refine ⟨"wireless." ++ staName radio ++ "." ++ entry.1 ++ "=" ++ text, ?_, ?_⟩
    · apply List.mem_cons_of_mem
      refine List.mem_flatMap.mpr ⟨entry, hentry, ?_⟩
      simp [htext, OpValue.elements]
    · rw [htext, renderAdded, List.mem_singleton] at hcommand
      rw [hcommand]
      refine readsAs_set text hpath ?_ ?_ <;> simp [String.toList_append]

/-! ### Hostile names -/

/-- Nothing of the name and the password is more than text, and the cleanup deletes exactly the
stations with the name. `selects` is what `grep` selects by the pattern. -/
structure Contained (selects : List Char → Bool) (config : Wireless) (radio ssid password : String)
    (encryption : EncryptionType) : Prop where
  literal : ReadsLiterally radio ssid password encryption
  exact : DeletesExactly selects ssid config.sections

/-- That is so exactly if the name is inert between double quotes and the lines that are kept take
the stations with the name. The name and the password are read as text exactly if the name is inert.
Assumes: the radio is an accepted identifier. -/
theorem connect_contained_iff (selects : List Char → Bool) (config : Wireless) {radio : String}
    (hradio : IsIdentifier radio) (ssid password : String) (encryption : EncryptionType) :
    (Contained selects config radio ssid password encryption ↔
        Shell.inert ssid.toList = true ∧ TakesStations selects ssid config.sections) ∧
      (ReadsLiterally radio ssid password encryption ↔ Shell.inert ssid.toList = true) := by
  have hliteral : ReadsLiterally radio ssid password encryption ↔
      Shell.inert ssid.toList = true := by
    constructor
    · exact fun hread ↦ (cleanup_literal_iff ssid).mp hread.name
    · intro hinert
      exact ⟨staCommands_literal hradio ssid password encryption, commandNames_cleanup hinert,
        (cleanup_literal_iff ssid).mpr hinert⟩
  refine ⟨?_, hliteral⟩
  rw [← hliteral, ← deletesExactly_iff selects ssid config]
  exact ⟨fun hcontained ↦ ⟨hcontained.literal, hcontained.exact⟩,
    fun hboth ↦ ⟨hboth.1, hboth.2⟩⟩

/-- A station with its options in an order of their own. -/
def stationOf (name : String) (options : List (String × OpValue)) (hname : isUciName name = true)
    (hlisted : ∀ option ∈ options, '\n' ∉ option.1.toList ++ shownValue option.2) : ShownSection :=
  ⟨name, "wifi-iface", false, options, hname, by decide +kernel, hlisted⟩

/-- Two stations, one of them with the name behind its head. -/
def cafeFirst : Wireless where
  sections :=
    [stationOf "home" [("device", .single "radio1"), ("ssid", .single "home")] (by decide +kernel)
        (by decide +kernel),
      stationOf "cafe" [("ssid", .single "cafe"), ("device", .single "radio0")] (by decide +kernel)
        (by decide +kernel)]
  distinct := by decide +kernel

/-- A station as `connect` writes it. -/
def cafeWritten : Wireless where
  sections := [stationOf "sta_radio0" (staValues "radio0" "cafe" "" .none) (by decide +kernel)
    (by decide +kernel)]
  distinct := by decide +kernel

theorem connect_contained_cafe :
    Contained (fun line ↦ decide ("ssid='cafe'".toList <:+: line)) cafeFirst "radio0" "cafe" ""
        .none ∧
      ¬ Contained (fun line ↦ decide ("ssid='cafe'".toList <:+: line)) cafeWritten "radio0" "cafe"
        "" .none := by
  have hradio : IsIdentifier "radio0" := by simp [isIdentifier_iff, isIdentifierChar]
  have hinert : Shell.inert "cafe".toList = true := by decide +kernel
  constructor
  · apply (connect_contained_iff _ cafeFirst hradio "cafe" "" .none).1.mpr
    exact ⟨hinert, by decide +kernel, by decide +kernel⟩
  · intro hcontained
    have htakes := ((connect_contained_iff _ cafeWritten hradio "cafe" "" .none).1.mp hcontained).2
    have hstays : ¬ ∀ entry ∈ (cafeWritten.sections.filter ShownSection.isStation).zipIdx,
        (entry.2 ∈ takenPlaces (keptLines (fun line ↦ decide ("ssid='cafe'".toList <:+: line))
          (shownLines [] cafeWritten.sections)) ↔ entry.1.hasSsid "cafe" = true) := by
      decide +kernel
    exact hstays htakes.places

/-- A network can run a program by its name. -/
theorem connect_runs_reboot :
    "reboot".toList ∈ Shell.commandNames (cleanupCommand "$(reboot)").toList ∧
      ∀ selects config, ¬ Contained selects config "radio0" "$(reboot)" "" .none := by
  have hrun : "reboot".toList ∈ Shell.commandNames (cleanupCommand "$(reboot)").toList := by
    have hsplit : (cleanupCommand "$(reboot)").toList =
        cleanupHead.toList ++ ("$(reboot)'".toList ++ cleanupTail.toList) := by
      simp [cleanupCommand, escapeSsid, String.toList_append]
    rw [hsplit]
    decide +kernel
  refine ⟨hrun, fun selects config hcontained ↦ ?_⟩
  rw [hcontained.literal.programs] at hrun
  exact absurd hrun (by decide +kernel)

end Tollgate
