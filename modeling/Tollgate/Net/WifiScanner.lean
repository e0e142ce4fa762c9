import Tollgate.Library.Decimal
import Tollgate.Library.Text
import Tollgate.Net.Wallet
import Tollgate.Net.WifiConnector

/-!
# Reading a scan

`parse_iwinfo_output` of `wifi_scanner.rs`: a pass over the lines of `iwinfo scan` that carries the
fields of the cell it is in, and looks for most keywords anywhere in a line.

The name of a network is on a line of its own and can say anything. What it makes the pass believe
is the channel and the signal, and the lines of these fields come after it: `Cell.scan_printed` says
that the five lines of a cell leave its own fields behind, whatever was there before.
-/

set_option autoImplicit false
set_option relaxedAutoImplicit false

namespace Tollgate

open Text Decimal

/-! ### The scanner -/

/-- `ScanResult`. -/
structure ScanResult where
  bssid : String
  ssid : String
  signalDbm : Int32
  encryption : EncryptionType
  channel : UInt32
  radio : String
  deriving DecidableEq

/-- A character in lower case, as far as ASCII goes: all others become characters that are not
ASCII, but for the Kelvin sign and the capital I with a dot. -/
def lowerChar (char : Char) : List Char :=
  if char = '\u212a' then ['k']
  else if char = '\u0130' then ['i', '\u0307']
  else [char.toLower]

/-- `detect_encryption`. -/
def detectEncryption (encStr : List Char) : EncryptionType :=
  let lower := encStr.flatMap lowerChar
  let has (word : String) : Bool := contains word.toList lower
  if has "none" ∨ has "open" then .none
  else if has "wep" then .wep
  else if has "sae" ∧ (has "mixed" ∨ has "wpa2" ∨ has "wpa3") then .saeMixed
  else if has "sae" then .sae
  else if has "eap" ∨ has "802.1x" then .wpa2Eap
  else if has "wpa2" ∧ has "psk" then if has "ccmp" then .psk2Ccmp else .psk2
  else if has "wpa" ∧ has "psk" then .psk
  else if has "wpa2" then .psk2
  else if has "wpa" then .psk
  else if encStr = [] then .none
  else .unknown (String.ofList encStr)

/-- The fields of the cell that the pass is in, and the results so far. -/
structure ScanState where
  bssid : String
  ssid : String
  signal : Int32
  encryption : EncryptionType
  channel : UInt32
  results : List ScanResult

namespace ScanState

/-- Before the first line. -/
def start : ScanState where
  bssid := ""
  ssid := ""
  signal := -100
  encryption := .none
  channel := 0
  results := []

/-- The results with the cell that the pass is in, unless it has no name or no address. -/
def flushed (radio : String) (state : ScanState) : List ScanResult :=
  state.results ++
    if state.ssid ≠ "" ∧ state.bssid ≠ "" then
      [⟨state.bssid, state.ssid, state.signal, state.encryption, state.channel, radio⟩]
    else []

end ScanState

/-- The address on a line that starts a cell. -/
def readAddress (line : List Char) : String :=
  match splitSecond "Address:".toList line with
  | some addr => String.ofList (trimEnds isWhiteSpace addr)
  | none => ""

/-- The name, after a line. -/
def readSsid (line : List Char) (ssid : String) : String :=
  match stripPrefix "ESSID:".toList line with
  | some essid =>
    let essid := trimEnds isWhiteSpace essid
    String.ofList (((stripPrefix ['"'] essid).bind (stripSuffix ['"'])).getD essid)
  | none => ssid

/-- The signal, after a line. -/
def readSignal (line : List Char) (signal : Int32) : Int32 :=
  match splitSecond "Signal:".toList line with
  | some signalPart =>
    (parseI32
      (trimEnds isWhiteSpace (splitFirst "dBm".toList (trimEnds isWhiteSpace signalPart)))).getD
      signal
  | none => signal

/-- The encryption, after a line. -/
def readEncryption (line : List Char) (encryption : EncryptionType) : EncryptionType :=
  match stripPrefix "Encryption:".toList line with
  | some encStr => detectEncryption (trimEnds isWhiteSpace encStr)
  | none => encryption

/-- The channel, after a line. -/
def readChannel (line : List Char) (channel : UInt32) : UInt32 :=
  match splitSecond "Channel:".toList line with
  | some chPart => (parseU32 (trimEnds isWhiteSpace chPart)).getD channel
  | none => channel

/-- One line of the loop. -/
def scanLine (radio : String) (state : ScanState) (line : List Char) : ScanState :=
  let line := trimEnds isWhiteSpace line
  if "Cell".toList.isPrefixOf line = true then
    { ScanState.start with bssid := readAddress line, results := state.flushed radio }
  else
    { state with
      ssid := readSsid line state.ssid
      signal := readSignal line state.signal
      encryption := readEncryption line state.encryption
      channel := readChannel line state.channel }

/-- `parse_iwinfo_output`. -/
def parseIwinfoOutput (output radio : String) : List ScanResult :=
  (((lines output.toList).foldl (scanLine radio) .start).flushed radio).mergeSort
    fun first second ↦ second.signalDbm.toInt ≤ first.signalDbm.toInt

/-! ### What is scanned -/

/-- The characters of an address. -/
def macChars : List Char :=
  "0123456789ABCDEFabcdef:".toList

/-- A cell with the text of its lines: the digits of its number, the blanks in front of each line,
the mode and the quality are told too. -/
structure Cell where
  number : List Char
  number_digits : ∀ char ∈ number, char.isDigit = true
  indent : Fin 5 → ℕ
  mac : List Char
  mac_chars : mac ≠ [] ∧ ∀ char ∈ mac, char ∈ macChars
  ssid : List Char
  ssid_line : '\n' ∉ ssid
  mode : List Char
  mode_line : '\n' ∉ mode ∧ ¬ "Channel:".toList <:+: mode
  channel : UInt32
  signal : Int32
  quality : ℕ × ℕ
  encryption : List Char
  encryption_line : '\n' ∉ encryption ∧ ¬ "Signal:".toList <:+: encryption ∧
    ¬ "Channel:".toList <:+: encryption

namespace Cell

variable (cell : Cell)

/-- The blanks in front of a line. -/
def blanks (line : Fin 5) : List Char :=
  List.replicate (cell.indent line) ' '

def cellLine : List Char :=
  "Cell ".toList ++ cell.number ++ " - Address: ".toList ++ cell.mac

def essidLine : List Char :=
  "ESSID: \"".toList ++ cell.ssid ++ ['"']

def modeLine : List Char :=
  "Mode: ".toList ++ cell.mode ++ "  Channel: ".toList ++ showU32 cell.channel

def signalLine : List Char :=
  "Signal: ".toList ++ showI32 cell.signal ++ " dBm  Quality: ".toList ++ digits cell.quality.1 ++
    ['/'] ++ digits cell.quality.2

def encryptionLine : List Char :=
  "Encryption: ".toList ++ cell.encryption

/-- The five lines as they are printed. -/
def printed : List (List Char) :=
  [cell.blanks 0 ++ cell.cellLine, cell.blanks 1 ++ cell.essidLine, cell.blanks 2 ++ cell.modeLine,
    cell.blanks 3 ++ cell.signalLine, cell.blanks 4 ++ cell.encryptionLine]

/-- What is to be reported of it. -/
def result (radio : String) : ScanResult where
  bssid := String.ofList cell.mac
  ssid := String.ofList cell.ssid
  signalDbm := cell.signal
  encryption := detectEncryption (trimEnds isWhiteSpace cell.encryption)
  channel := cell.channel
  radio := radio

end Cell

/-- The output of a scan. -/
def printedCells (cells : List Cell) : String :=
  String.ofList (ofLines (cells.flatMap Cell.printed))

/-! ### The characters of numbers and addresses -/

theorem isWhiteSpace_of_isDigit {char : Char} (hdigit : char.isDigit = true) :
    isWhiteSpace char = false := by
  rw [Char.isDigit_iff_toNat] at hdigit
  simp only [Char.reduceToNat] at hdigit
  simp [isWhiteSpace]
  omega

theorem isDigit_of_mem_digits {number : ℕ} {char : Char} (hchar : char ∈ digits number) :
    char.isDigit = true :=
  Nat.isDigit_of_mem_toDigits (by decide) (by decide) hchar

/-- A number with a sign is digits and a minus sign. -/
theorem mem_showI32 {number : Int32} {char : Char} (hchar : char ∈ showI32 number) :
    char = '-' ∨ char.isDigit = true := by
  unfold showI32 showInt at hchar
  split_ifs at hchar
  · exact (List.mem_cons.mp hchar).imp_right isDigit_of_mem_digits
  · exact Or.inr (isDigit_of_mem_digits hchar)

theorem digits_ne_nil {number : ℕ} : digits number ≠ [] :=
  Nat.toDigits_ne_nil

theorem showI32_ne_nil (number : Int32) : showI32 number ≠ [] := by
  unfold showI32 showInt
  split_ifs
  · exact List.cons_ne_nil _ _
  · exact Nat.toDigits_ne_nil

theorem notMem_digits {char : Char} (hchar : char.isDigit = false) (number : ℕ) :
    char ∉ digits number := fun hmem ↦
  Bool.false_ne_true (hchar.symm.trans (isDigit_of_mem_digits hmem))

theorem notMem_showI32 {char : Char} (hchar : char.isDigit = false) (hminus : char ≠ '-')
    (number : Int32) : char ∉ showI32 number := fun hmem ↦
  (mem_showI32 hmem).elim hminus fun hdigit ↦ Bool.false_ne_true (hchar.symm.trans hdigit)

theorem isWhiteSpace_of_mem_macChars {char : Char} (hchar : char ∈ macChars) :
    isWhiteSpace char = false := by
  have hall : macChars.all (fun char ↦ !isWhiteSpace char) = true := by decide
  simpa using List.all_eq_true.mp hall char hchar

namespace Cell

variable (cell : Cell)

/-! ### The lines of a cell -/

theorem mac_readable : (∀ char ∈ cell.mac, isWhiteSpace char = false) ∧ 'r' ∉ cell.mac :=
  ⟨fun char hchar ↦ isWhiteSpace_of_mem_macChars (cell.mac_chars.2 char hchar),
    fun hmem ↦ absurd (cell.mac_chars.2 'r' hmem) (by decide)⟩

theorem isWhiteSpace_of_mem_blanks {line : Fin 5} {char : Char} (hchar : char ∈ cell.blanks line) :
    isWhiteSpace char = true := by
  rw [List.eq_of_mem_replicate hchar]
  rfl

/-- A line that starts and ends with something else than white space. -/
theorem trimEnds_blanks {line : Fin 5} {first : Char} (middle : List Char) {tail : List Char}
    (hfirst : isWhiteSpace first = false) (hsome : tail ≠ [])
    (htail : ∀ char ∈ tail, isWhiteSpace char = false) :
    trimEnds isWhiteSpace (cell.blanks line ++ (first :: middle ++ tail)) =
      first :: middle ++ tail := by
  rw [List.cons_append, trimEnds_append (fun _ ↦ cell.isWhiteSpace_of_mem_blanks) hfirst,
    ← List.cons_append, rdropWhile_append_of_black _ hsome htail]

theorem trimEnds_cellLine :
    trimEnds isWhiteSpace (cell.blanks 0 ++ cell.cellLine) = cell.cellLine :=
  cell.trimEnds_blanks ("ell ".toList ++ cell.number ++ " - Address: ".toList) (by decide)
    cell.mac_chars.1 cell.mac_readable.1

theorem trimEnds_essidLine :
    trimEnds isWhiteSpace (cell.blanks 1 ++ cell.essidLine) = cell.essidLine :=
  cell.trimEnds_blanks ("SSID: \"".toList ++ cell.ssid) (by decide) (by simp)
    (by simp; decide)

theorem trimEnds_modeLine :
    trimEnds isWhiteSpace (cell.blanks 2 ++ cell.modeLine) = cell.modeLine :=
  cell.trimEnds_blanks ("ode: ".toList ++ cell.mode ++ "  Channel: ".toList) (by decide)
    Nat.toDigits_ne_nil fun _ hchar ↦ isWhiteSpace_of_isDigit (isDigit_of_mem_digits hchar)

theorem trimEnds_signalLine :
    trimEnds isWhiteSpace (cell.blanks 3 ++ cell.signalLine) = cell.signalLine :=
  cell.trimEnds_blanks ("ignal: ".toList ++ showI32 cell.signal ++
      " dBm  Quality: ".toList ++ digits cell.quality.1 ++ ['/']) (by decide)
    Nat.toDigits_ne_nil fun _ hchar ↦ isWhiteSpace_of_isDigit (isDigit_of_mem_digits hchar)

theorem toList_encryptionLine :
    cell.encryptionLine = 'E' :: ("ncryption".toList ++ ':' :: ' ' :: cell.encryption) := by
  have hstart : "Encryption: ".toList = 'E' :: "ncryption".toList ++ [':', ' '] := by decide
  unfold encryptionLine
  rw [hstart, List.append_assoc]
  rfl

/-- The line of the encryption as the pass sees it. -/
def encryptionSeen : List Char :=
  'E' :: ("ncryption".toList ++ ':' :: (' ' :: cell.encryption).rdropWhile isWhiteSpace)

theorem trimEnds_encryptionLine :
    trimEnds isWhiteSpace (cell.blanks 4 ++ cell.encryptionLine) = cell.encryptionSeen := by
  rw [toList_encryptionLine, trimEnds_append (fun _ ↦ cell.isWhiteSpace_of_mem_blanks) (by decide),
    ← List.cons_append, rdropWhile_append_cons (by decide)]
  rfl

/-! ### What is read from them -/

theorem readAddress_cellLine : readAddress cell.cellLine = String.ofList cell.mac := by
  have hsplit : cell.cellLine =
      ("Cell ".toList ++ cell.number ++ " -".toList) ++
        ' ' :: ("Address:".toList ++ ' ' :: cell.mac) := by
    have hlabel : " - Address: ".toList = " -".toList ++ ' ' :: ("Address:".toList ++ [' ']) := by
      decide
    unfold cellLine
    rw [hlabel]
    simp only [List.append_assoc, List.cons_append, List.nil_append]
  have hbefore : 'A' ∉ "Cell ".toList ++ cell.number ++ " -".toList := by
    rw [List.mem_append, List.mem_append, not_or, not_or]
    exact ⟨⟨by decide, fun hmem ↦ absurd (cell.number_digits 'A' hmem) (by decide)⟩, by decide⟩
  have hafter : 'r' ∉ ' ' :: cell.mac :=
    List.not_mem_cons_of_ne_of_not_mem (by decide) cell.mac_readable.2
  rw [readAddress, hsplit, splitSecond_of_once (by decide) (by decide)
    (not_infix_of_notMem 'A' (by decide) hbefore) (not_infix_of_notMem 'r' (by decide) hafter)]
  simp only
  rw [trimEnds_cons (by decide), trimEnds_eq_self cell.mac_readable.1]

theorem readSsid_essidLine (ssid : String) :
    readSsid cell.essidLine ssid = String.ofList cell.ssid := by
  have hsplit : cell.essidLine = "ESSID:".toList ++ ' ' :: '"' :: (cell.ssid ++ ['"']) := by
    have hlabel : "ESSID: \"".toList = "ESSID:".toList ++ [' ', '"'] := by decide
    unfold essidLine
    rw [hlabel]
    simp only [List.append_assoc, List.cons_append, List.nil_append]
  have hquoted : trimEnds isWhiteSpace (' ' :: '"' :: (cell.ssid ++ ['"'])) =
      ['"'] ++ (cell.ssid ++ ['"']) := by
    rw [← List.singleton_append, trimEnds_append (by simp; decide) (by decide), ← List.cons_append,
      rdropWhile_append_cons (by decide), List.rdropWhile_nil]
    rfl
  rw [readSsid, hsplit, stripPrefix_append]
  simp only
  rw [hquoted, stripPrefix_append, Option.bind_some, stripSuffix_append, Option.getD_some]

theorem readChannel_modeLine (channel : UInt32) :
    readChannel cell.modeLine channel = cell.channel := by
  have hsplit : cell.modeLine = ("Mode:".toList ++ ' ' :: (cell.mode ++ ' ' :: [])) ++
      ' ' :: ("Channel:".toList ++ ' ' :: showU32 cell.channel) := by
    have hlabel : "Mode: ".toList = "Mode:".toList ++ [' '] := by decide
    have hnext : "  Channel: ".toList = ' ' :: ' ' :: ("Channel:".toList ++ [' ']) := by decide
    unfold modeLine
    rw [hlabel, hnext]
    simp only [List.append_assoc, List.cons_append, List.nil_append]
  have hbefore : ¬ "Channel:".toList <:+: "Mode:".toList ++ ' ' :: (cell.mode ++ ' ' :: []) := by
    rw [infix_append_cons_iff (by decide), infix_append_cons_iff (by decide), not_or, not_or]
    exact ⟨not_infix_of_notMem 'C' (by decide) (by decide), cell.mode_line.2,
      not_infix_of_notMem 'C' (by decide) (by decide)⟩
  have hafter : 'C' ∉ ' ' :: showU32 cell.channel :=
    List.not_mem_cons_of_ne_of_not_mem (by decide) (notMem_digits (by decide) _)
  have hnumber : trimEnds isWhiteSpace (showU32 cell.channel) = showU32 cell.channel :=
    trimEnds_eq_self fun _ hchar ↦ isWhiteSpace_of_isDigit (isDigit_of_mem_digits hchar)
  rw [readChannel, hsplit, splitSecond_of_once (by decide) (by decide) hbefore
    (not_infix_of_notMem 'C' (by decide) hafter)]
  simp only
  rw [trimEnds_cons (by decide), hnumber, parseU32_showU32, Option.getD_some]

theorem readSignal_signalLine (signal : Int32) :
    readSignal cell.signalLine signal = cell.signal := by
  let rest := "  Quality: ".toList ++ digits cell.quality.1 ++ ['/'] ++ digits cell.quality.2
  have hsplit : cell.signalLine = "Signal:".toList ++ (' ' :: (showI32 cell.signal ++
      ' ' :: ("dBm".toList ++ rest))) := by
    have hlabel : "Signal: ".toList = "Signal:".toList ++ [' '] := by decide
    have hnext : " dBm  Quality: ".toList = ' ' :: ("dBm".toList ++ "  Quality: ".toList) := by
      decide
    unfold signalLine
    rw [hlabel, hnext]
    simp only [rest, List.append_assoc, List.cons_append, List.nil_append]
  have hrest (char : Char) (hquality : char ∉ "  Quality: ".toList) (hslash : char ≠ '/')
      (hdigit : char.isDigit = false) : char ∉ rest := by
    simp only [rest, List.mem_append, not_or, List.mem_singleton]
    exact ⟨⟨⟨hquality, notMem_digits hdigit _⟩, hslash⟩, notMem_digits hdigit _⟩
  have hafter : 'S' ∉ ' ' :: (showI32 cell.signal ++ ' ' :: ("dBm".toList ++ rest)) := by
    simp only [List.mem_cons, List.mem_append, not_or]
    exact ⟨by decide, notMem_showI32 (by decide) (by decide) _, by decide, by decide,
      hrest 'S' (by decide) (by decide) (by decide)⟩
  have hsigned : ∀ char ∈ showI32 cell.signal, isWhiteSpace char = false := fun char hchar ↦
    (mem_showI32 hchar).elim (fun hminus ↦ hminus ▸ by decide) isWhiteSpace_of_isDigit
  have htrimmed : splitFirst "dBm".toList (trimEnds isWhiteSpace
      (' ' :: (showI32 cell.signal ++ ' ' :: ("dBm".toList ++ rest)))) =
        showI32 cell.signal ++ [' '] := by
    have hends : trimEnds isWhiteSpace (showI32 cell.signal ++ ' ' :: ("dBm".toList ++ rest)) =
        showI32 cell.signal ++ ' ' :: ("dBm".toList ++ rest) := by
      obtain ⟨first, more, hsign⟩ := List.exists_cons_of_ne_nil (showI32_ne_nil cell.signal)
      have hfirst := hsigned first (hsign ▸ List.mem_cons_self)
      have htail : ∀ char ∈ digits cell.quality.2, isWhiteSpace char = false := fun _ hchar ↦
        isWhiteSpace_of_isDigit (isDigit_of_mem_digits hchar)
      have hend : (showI32 cell.signal ++ ' ' :: ("dBm".toList ++ rest)).rdropWhile isWhiteSpace =
          showI32 cell.signal ++ ' ' :: ("dBm".toList ++ rest) := by
        have hblack := rdropWhile_append_of_black (showI32 cell.signal ++ ' ' :: ("dBm".toList ++
          ("  Quality: ".toList ++ digits cell.quality.1 ++ ['/']))) digits_ne_nil htail
        simpa only [rest, List.append_assoc, List.cons_append] using hblack
      rw [hsign] at hend ⊢
      exact (trimEnds_append (fun _ hchar ↦ absurd hchar List.not_mem_nil) hfirst).trans hend
    have hbefore : 'd' ∉ showI32 cell.signal := notMem_showI32 (by decide) (by decide) _
    rw [trimEnds_cons (by decide), hends, splitFirst,
      cut_append_cons (by decide) (not_infix_of_notMem 'd' (by decide) hbefore),
      cut_append_self (by decide)]
    rfl
  rw [readSignal, hsplit,
    splitSecond_append (by decide) (not_infix_of_notMem 'S' (by decide) hafter)]
  simp only
  rw [htrimmed, trimEnds_concat (by decide), trimEnds_eq_self hsigned, parseI32_showI32,
    Option.getD_some]

theorem readEncryption_encryptionSeen (encryption : EncryptionType) :
    readEncryption cell.encryptionSeen encryption =
      detectEncryption (trimEnds isWhiteSpace cell.encryption) := by
  have hsplit : cell.encryptionSeen =
      "Encryption:".toList ++ (' ' :: cell.encryption).rdropWhile isWhiteSpace := by
    have hlabel : "Encryption:".toList = 'E' :: ("ncryption".toList ++ [':']) := by decide
    unfold encryptionSeen
    rw [hlabel]
    simp only [List.append_assoc, List.cons_append, List.nil_append]
  rw [readEncryption, hsplit, stripPrefix_append]
  simp only
  rw [trimEnds_rdropWhile, trimEnds_cons (by decide)]

/-- A keyword that is not in the encryption is not on its line. -/
theorem not_infix_encryptionSeen {pattern : List Char} (hblank : ' ' ∉ pattern)
    (hlabel : ¬ pattern <:+: "Encryption:".toList) (hnone : ¬ pattern <:+: cell.encryption) :
    ¬ pattern <:+: cell.encryptionSeen := by
  have hline : cell.encryptionSeen <+: "Encryption:".toList ++ ' ' :: cell.encryption := by
    have hstart : "Encryption:".toList = 'E' :: ("ncryption".toList ++ [':']) := by decide
    rw [hstart, encryptionSeen, List.cons_append, List.append_assoc, List.singleton_append]
    exact List.cons_prefix_cons.mpr ⟨rfl, (List.prefix_append_right_inj _).mpr
      (List.cons_prefix_cons.mpr ⟨rfl, List.rdropWhile_prefix _ _⟩)⟩
  intro hpart
  rcases (infix_append_cons_iff hblank).mp (hpart.trans hline.isInfix) with hfirst | hrest
  · exact hlabel hfirst
  · exact hnone hrest

theorem readSignal_encryptionSeen (signal : Int32) :
    readSignal cell.encryptionSeen signal = signal := by
  have hnone : ¬ "Signal:".toList <:+: cell.encryptionSeen :=
    cell.not_infix_encryptionSeen (by decide) (by decide) cell.encryption_line.2.1
  rw [readSignal, splitSecond, cut_eq_none_iff.mpr hnone]
  rfl

theorem readChannel_encryptionSeen (channel : UInt32) :
    readChannel cell.encryptionSeen channel = channel := by
  have hnone : ¬ "Channel:".toList <:+: cell.encryptionSeen :=
    cell.not_infix_encryptionSeen (by decide) (by decide) cell.encryption_line.2.2
  rw [readChannel, splitSecond, cut_eq_none_iff.mpr hnone]
  rfl

theorem readChannel_signalLine (channel : UInt32) :
    readChannel cell.signalLine channel = channel := by
  have hnone : 'C' ∉ cell.signalLine := by
    unfold signalLine
    simp only [List.mem_append, not_or, List.mem_singleton]
    exact ⟨⟨⟨⟨⟨by decide, notMem_showI32 (by decide) (by decide) _⟩, by decide⟩,
      notMem_digits (by decide) _⟩, by decide⟩, notMem_digits (by decide) _⟩
  rw [readChannel, splitSecond, cut_eq_none_iff.mpr (not_infix_of_notMem 'C' (by decide) hnone)]
  rfl

/-! A line that starts with another letter has neither a name nor an encryption. -/

theorem readSsid_of_ne {first : Char} {rest : List Char} (hfirst : first ≠ 'E') (ssid : String) :
    readSsid (first :: rest) ssid = ssid := by
  have hlabel : "ESSID:".toList = 'E' :: "SSID:".toList := by decide
  rw [readSsid, hlabel, stripPrefix_cons_of_ne hfirst.symm]

theorem readEncryption_of_ne {first : Char} {rest : List Char} (hfirst : first ≠ 'E')
    (encryption : EncryptionType) : readEncryption (first :: rest) encryption = encryption := by
  have hlabel : "Encryption:".toList = 'E' :: "ncryption:".toList := by decide
  rw [readEncryption, hlabel, stripPrefix_cons_of_ne hfirst.symm]

theorem readSsid_modeLine (ssid : String) : readSsid cell.modeLine ssid = ssid :=
  readSsid_of_ne (by decide) ssid

theorem readSsid_signalLine (ssid : String) : readSsid cell.signalLine ssid = ssid :=
  readSsid_of_ne (by decide) ssid

theorem readEncryption_modeLine (encryption : EncryptionType) :
    readEncryption cell.modeLine encryption = encryption :=
  readEncryption_of_ne (by decide) encryption

theorem readEncryption_signalLine (encryption : EncryptionType) :
    readEncryption cell.signalLine encryption = encryption :=
  readEncryption_of_ne (by decide) encryption

/-- The line of the encryption has no name, although it starts with the same letter. -/
theorem readSsid_encryptionSeen (ssid : String) : readSsid cell.encryptionSeen ssid = ssid := by
  rw [readSsid]
  rfl

/-! ### The pass over a cell -/

/-- A line of the loop that starts no cell. -/
theorem scanLine_of_not_cell {radio : String} {state : ScanState} {line seen : List Char}
    (hseen : trimEnds isWhiteSpace line = seen) (hcell : "Cell".toList.isPrefixOf seen = false) :
    scanLine radio state line =
      { state with
        ssid := readSsid seen state.ssid
        signal := readSignal seen state.signal
        encryption := readEncryption seen state.encryption
        channel := readChannel seen state.channel } := by
  subst hseen
  unfold scanLine
  simp only
  rw [if_neg (by rw [hcell]; exact Bool.false_ne_true)]

/-- The five lines of a cell leave its own fields, and what was there before as a result. -/
theorem scan_printed (radio : String) (state : ScanState) :
    cell.printed.foldl (scanLine radio) state =
      { bssid := String.ofList cell.mac
        ssid := String.ofList cell.ssid
        signal := cell.signal
        encryption := detectEncryption (trimEnds isWhiteSpace cell.encryption)
        channel := cell.channel
        results := state.flushed radio } := by
  have hfirst : scanLine radio state (cell.blanks 0 ++ cell.cellLine) =
      { ScanState.start with bssid := String.ofList cell.mac, results := state.flushed radio } := by
    have hcell : "Cell".toList.isPrefixOf cell.cellLine = true := by
      rw [List.isPrefixOf_iff_prefix]
      have hlabel : "Cell ".toList = "Cell".toList ++ [' '] := by decide
      unfold cellLine
      rw [hlabel, List.append_assoc, List.append_assoc, List.append_assoc]
      exact List.prefix_append _ _
    unfold scanLine
    rw [cell.trimEnds_cellLine]
    simp only
    rw [if_pos hcell, readAddress_cellLine]
  unfold printed
  rw [List.foldl_cons, hfirst, List.foldl_cons, scanLine_of_not_cell cell.trimEnds_essidLine rfl,
    List.foldl_cons, scanLine_of_not_cell cell.trimEnds_modeLine rfl, List.foldl_cons,
    scanLine_of_not_cell cell.trimEnds_signalLine rfl, List.foldl_cons,
    scanLine_of_not_cell cell.trimEnds_encryptionLine rfl, List.foldl_nil]
  simp only [readSsid_essidLine, readSsid_modeLine, readSsid_signalLine, readChannel_modeLine,
    readChannel_signalLine, readSignal_signalLine, readEncryption_modeLine,
    readEncryption_signalLine, readSsid_encryptionSeen, readSignal_encryptionSeen,
    readChannel_encryptionSeen, readEncryption_encryptionSeen]

/-- No line of a cell goes on in the next one. -/
theorem newline_notMem_printed {line : List Char} (hline : line ∈ cell.printed) : '\n' ∉ line := by
  have hblanks (index : Fin 5) : '\n' ∉ cell.blanks index := fun hmem ↦
    absurd (List.eq_of_mem_replicate hmem) (by decide)
  have hnumber : '\n' ∉ cell.number := fun hmem ↦ absurd (cell.number_digits _ hmem) (by decide)
  have hmac : '\n' ∉ cell.mac := fun hmem ↦ absurd (cell.mac_chars.2 _ hmem) (by decide)
  have hdigits (number : ℕ) : '\n' ∉ digits number := notMem_digits (by decide) number
  simp only [printed, List.mem_cons, List.not_mem_nil, or_false] at hline
  obtain rfl | rfl | rfl | rfl | rfl := hline
  all_goals rw [List.mem_append, not_or]
  · unfold cellLine
    simp only [List.mem_append, not_or]
    exact ⟨hblanks 0, ⟨⟨by decide, hnumber⟩, by decide⟩, hmac⟩
  · unfold essidLine
    simp only [List.mem_append, not_or]
    exact ⟨hblanks 1, ⟨by decide, cell.ssid_line⟩, by decide⟩
  · unfold modeLine
    simp only [List.mem_append, not_or]
    exact ⟨hblanks 2, ⟨⟨by decide, cell.mode_line.1⟩, by decide⟩, hdigits _⟩
  · unfold signalLine
    simp only [List.mem_append, not_or]
    exact ⟨hblanks 3, ⟨⟨⟨⟨by decide, notMem_showI32 (by decide) (by decide) _⟩, by decide⟩,
      hdigits _⟩, by decide⟩, hdigits _⟩
  · unfold encryptionLine
    simp only [List.mem_append, not_or]
    exact ⟨hblanks 4, by decide, cell.encryption_line.1⟩

end Cell

/-! ### The pass over all cells -/

/-- What is to be reported: the cells with a name. -/
def expectedResults (cells : List Cell) (radio : String) : List ScanResult :=
  (cells.filter fun cell ↦ cell.ssid ≠ []).map fun cell ↦ cell.result radio

theorem expectedResults_cons (cell : Cell) (rest : List Cell) (radio : String) :
    expectedResults (cell :: rest) radio =
      (if cell.ssid ≠ [] then [cell.result radio] else []) ++ expectedResults rest radio := by
  unfold expectedResults
  by_cases hnamed : cell.ssid = []
  · simp [hnamed]
  · simp [hnamed]

/-- Each cell adds its own result, if it has a name. -/
theorem scan_cells (radio : String) (cells : List Cell) (state : ScanState) :
    ((cells.flatMap Cell.printed).foldl (scanLine radio) state).flushed radio =
      state.flushed radio ++ expectedResults cells radio := by
  induction cells generalizing state with
  | nil => simp [expectedResults]
  | cons cell rest ih =>
    have hmac : String.ofList cell.mac ≠ "" := by
      rw [Ne, ← String.toList_inj, String.toList_ofList]
      exact cell.mac_chars.1
    have hssid : String.ofList cell.ssid ≠ "" ↔ cell.ssid ≠ [] := by
      rw [Ne, ← String.toList_inj, String.toList_ofList]
      rfl
    rw [List.flatMap_cons, List.foldl_append, ih, cell.scan_printed, expectedResults_cons,
      ScanState.flushed, List.append_assoc]
    simp only [hmac, hssid, ne_eq, not_false_eq_true, and_true]
    rfl

/-- The results in their order. -/
theorem parse_printedCells (cells : List Cell) (radio : String) :
    parseIwinfoOutput (printedCells cells) radio =
      (expectedResults cells radio).mergeSort
        fun first second ↦ second.signalDbm.toInt ≤ first.signalDbm.toInt := by
  have hlines : ∀ line ∈ cells.flatMap Cell.printed, '\n' ∉ line := by
    intro line hline
    obtain ⟨cell, -, hmem⟩ := List.mem_flatMap.mp hline
    exact cell.newline_notMem_printed hmem
  have hcarriage (state : ScanState) (line : List Char) :
      scanLine radio state (stripCr line) = scanLine radio state line := by
    unfold scanLine
    rw [trimEnds_stripCr (by decide)]
  have hflushed : ScanState.start.flushed radio = [] := rfl
  rw [parseIwinfoOutput, printedCells, String.toList_ofList, lines_ofLines hlines, List.foldl_map]
  simp only [hcarriage]
  rw [scan_cells, hflushed, List.nil_append]

/-- For all cells: the results are those of the cells with a name, each once, by falling signal, and
those of one signal in the order of their cells. -/
theorem scan_parsed_faithfully (cells : List Cell) (radio : String) :
    (parseIwinfoOutput (printedCells cells) radio).Perm (expectedResults cells radio) ∧
      (parseIwinfoOutput (printedCells cells) radio).Pairwise
        (fun first second ↦ second.signalDbm ≤ first.signalDbm) ∧
      ∀ signal, (parseIwinfoOutput (printedCells cells) radio).filter
          (fun result ↦ result.signalDbm = signal) =
        (expectedResults cells radio).filter fun result ↦ result.signalDbm = signal := by
  rw [parse_printedCells]
  generalize expectedResults cells radio = results
  have htrans (first second third : ScanResult)
      (hfirst : decide (second.signalDbm.toInt ≤ first.signalDbm.toInt) = true)
      (hsecond : decide (third.signalDbm.toInt ≤ second.signalDbm.toInt) = true) :
      decide (third.signalDbm.toInt ≤ first.signalDbm.toInt) = true := by
    simp only [decide_eq_true_eq] at *
    omega
  have htotal (first second : ScanResult) :
      (decide (second.signalDbm.toInt ≤ first.signalDbm.toInt) ||
        decide (first.signalDbm.toInt ≤ second.signalDbm.toInt)) = true := by
    simp only [Bool.or_eq_true, decide_eq_true_eq]
    omega
  have hperm := List.mergeSort_perm results
    (fun first second ↦ second.signalDbm.toInt ≤ first.signalDbm.toInt)
  refine ⟨hperm, ?_, fun signal ↦ ?_⟩
  · refine (List.pairwise_mergeSort htrans htotal results).imp fun hle ↦ ?_
    exact Int32.le_iff_toInt_le.mpr (of_decide_eq_true hle)
  · have hequal : (results.filter fun result ↦ result.signalDbm = signal).Pairwise
        fun first second ↦ decide (second.signalDbm.toInt ≤ first.signalDbm.toInt) = true := by
      refine List.pairwise_of_forall_mem_list fun first hfirst second hsecond ↦ ?_
      have hfirst' := of_decide_eq_true (List.mem_filter.mp hfirst).2
      have hsecond' := of_decide_eq_true (List.mem_filter.mp hsecond).2
      rw [hfirst', hsecond']
      exact decide_eq_true le_rfl
    have hkept := (List.sublist_mergeSort htrans htotal hequal List.filter_sublist).filter
      fun result ↦ result.signalDbm = signal
    rw [List.filter_filter] at hkept
    simp only [Bool.and_self] at hkept
    exact (hkept.eq_of_length (hperm.filter _).length_eq.symm).symm

/-- A cell of the sample in the tests. -/
def sampleCell (number mac ssid : String) (channel : UInt32) (signal : Int32) (quality : ℕ)
    (encryption : String)
    (hdigits : number.toList.all Char.isDigit = true)
    (hmac : mac.toList ≠ [] ∧ mac.toList.all (fun char ↦ char ∈ macChars) = true)
    (hssid : '\n' ∉ ssid.toList)
    (hencryption : '\n' ∉ encryption.toList ∧ ¬ "Signal:".toList <:+: encryption.toList ∧
      ¬ "Channel:".toList <:+: encryption.toList) : Cell where
  number := number.toList
  number_digits := List.all_eq_true.mp hdigits
  indent line := if line = 0 then 0 else 10
  mac := mac.toList
  mac_chars :=
    ⟨hmac.1, fun char hchar ↦ of_decide_eq_true (List.all_eq_true.mp hmac.2 char hchar)⟩
  ssid := ssid.toList
  ssid_line := hssid
  mode := "Master".toList
  mode_line := by decide
  channel := channel
  signal := signal
  quality := (quality, 100)
  encryption := encryption.toList
  encryption_line := hencryption

def sampleCells : List Cell :=
  [sampleCell "01" "AA:BB:CC:DD:EE:01" "TollGate-5G" 36 (-45) 70 "WPA2 PSK (CCMP)" (by decide)
      (by decide) (by decide) (by decide),
    sampleCell "02" "AA:BB:CC:DD:EE:02" "TollGate-2G" 1 (-67) 40 "WPA2 PSK (CCMP)" (by decide)
      (by decide) (by decide) (by decide),
    sampleCell "03" "AA:BB:CC:DD:EE:03" "OpenWrt" 6 (-80) 20 "none" (by decide) (by decide)
      (by decide) (by decide),
    sampleCell "04" "AA:BB:CC:DD:EE:04" "" 11 (-55) 55 "WPA2 PSK (CCMP)" (by decide) (by decide)
      (by decide) (by decide)]

/-- The sample of the tests: the cells with a name. -/
theorem scan_parsed_sample :
    printedCells sampleCells = String.ofList (ofLines (
      ["Cell 01 - Address: AA:BB:CC:DD:EE:01",
        "          ESSID: \"TollGate-5G\"",
        "          Mode: Master  Channel: 36",
        "          Signal: -45 dBm  Quality: 70/100",
        "          Encryption: WPA2 PSK (CCMP)",
        "Cell 02 - Address: AA:BB:CC:DD:EE:02",
        "          ESSID: \"TollGate-2G\"",
        "          Mode: Master  Channel: 1",
        "          Signal: -67 dBm  Quality: 40/100",
        "          Encryption: WPA2 PSK (CCMP)",
        "Cell 03 - Address: AA:BB:CC:DD:EE:03",
        "          ESSID: \"OpenWrt\"",
        "          Mode: Master  Channel: 6",
        "          Signal: -80 dBm  Quality: 20/100",
        "          Encryption: none",
        "Cell 04 - Address: AA:BB:CC:DD:EE:04",
        "          ESSID: \"\"",
        "          Mode: Master  Channel: 11",
        "          Signal: -55 dBm  Quality: 55/100",
        "          Encryption: WPA2 PSK (CCMP)"].map String.toList)) ∧
      (parseIwinfoOutput (printedCells sampleCells) "radio0").Perm
        [⟨"AA:BB:CC:DD:EE:01", "TollGate-5G", -45, .psk2Ccmp, 36, "radio0"⟩,
          ⟨"AA:BB:CC:DD:EE:02", "TollGate-2G", -67, .psk2Ccmp, 1, "radio0"⟩,
          ⟨"AA:BB:CC:DD:EE:03", "OpenWrt", -80, .none, 6, "radio0"⟩] := by
  refine ⟨congrArg (String.ofList ∘ ofLines) (by decide +kernel), ?_⟩
  have hexpected : expectedResults sampleCells "radio0" =
      [⟨"AA:BB:CC:DD:EE:01", "TollGate-5G", -45, .psk2Ccmp, 36, "radio0"⟩,
        ⟨"AA:BB:CC:DD:EE:02", "TollGate-2G", -67, .psk2Ccmp, 1, "radio0"⟩,
        ⟨"AA:BB:CC:DD:EE:03", "OpenWrt", -80, .none, 6, "radio0"⟩] := by
    decide +kernel
  rw [← hexpected]
  exact (scan_parsed_faithfully sampleCells "radio0").1

end Tollgate
