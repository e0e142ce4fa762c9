import Tollgate.Net.Uci

/-!
# Configuration operations and their two transports

`openwrt/uci_ops.rs` describes changes of the configuration as operations and renders them as shell
commands; `openwrt/ubus_client.rs` makes the same changes by calls of rpcd. `executeShell` reads the
rendered text as the shell does, runs it against the store, and goes on after a failure.
`executeUbus` carries out the calls.

The two differ where the calls have no counterpart: there is none that appends to a list, and the
name of a section that is added is left out. `transports_agree` says what that comes to for whole
lists of operations.
-/

set_option autoImplicit false
set_option relaxedAutoImplicit false

namespace Tollgate

open Std

/-! ### Operations -/

/-- `ServiceAction`. -/
inductive ServiceAction
  | start
  | stop
  | restart
  | enable
  | disable
  deriving DecidableEq, Repr

/-- Its name, in the shell and for rpcd. -/
def ServiceAction.text : ServiceAction → String
  | .start => "start"
  | .stop => "stop"
  | .restart => "restart"
  | .enable => "enable"
  | .disable => "disable"

/-- `UciOp`. A section that is added without a name is anonymous. -/
inductive UciOp
  | set (config reference : String) (values : List (String × OpValue))
  | add (config typeName name : String) (values : List (String × OpValue))
  | delete (config reference : String) (option : Option String)
  | addList (config reference option value : String)
  | commit (config : String)
  | shell (command : String)
  | service (name : String) (action : ServiceAction)
  | comment (text : String)
  deriving DecidableEq, Repr

/-- `UciOpError::InvalidIdentifier`. -/
inductive UciOpError
  | invalidIdentifier (message : String)
  deriving DecidableEq, Repr

/-- The characters of identifiers. -/
def isIdentifierChar (character : Char) : Bool :=
  ('a' ≤ character && character ≤ 'z') || ('A' ≤ character && character ≤ 'Z') ||
    ('0' ≤ character && character ≤ '9') || ['_', '-', '.', '@', '[', ']'].contains character

/-- `validate_identifier`. -/
def validateIdentifier (name : String) : Except UciOpError Unit :=
  if name = "" then .error (.invalidIdentifier "empty identifier")
  else
    match name.toList.find? (fun character ↦ !isIdentifierChar character) with
    | none => .ok ()
    | some character =>
      .error (.invalidIdentifier ("invalid character '" ++ character.toString ++ "' in identifier"))

/-- `sh_quote`. -/
def shQuote (value : String) : String :=
  let escaped := String.ofList (value.toList.flatMap fun character ↦
    if character = '\'' then "'\\''".toList else [character])
  "'" ++ escaped ++ "'"

/-! ### The shell -/

/-- A value is set; a list is put in the place of what was there. -/
def renderSet (path : String) : OpValue → List String
  | .single value => ["uci set " ++ path ++ "=" ++ shQuote value]
  | .list items =>
    ("uci delete " ++ path ++ " 2>/dev/null || true") ::
      items.map fun item ↦ "uci add_list " ++ path ++ "=" ++ shQuote item

/-- A value of a section that was just added. -/
def renderAdded (path : String) : OpValue → List String
  | .single value => ["uci set " ++ path ++ "=" ++ shQuote value]
  | .list items => items.map fun item ↦ "uci add_list " ++ path ++ "=" ++ shQuote item

/-- The commands of one operation. -/
def UciOp.render : UciOp → List String
  | .set config reference values =>
    values.flatMap fun (key, value) ↦ renderSet (config ++ "." ++ reference ++ "." ++ key) value
  | .add config typeName name values =>
    (if name = "" then "uci add " ++ config ++ " " ++ typeName
      else "uci set " ++ config ++ "." ++ name ++ "=" ++ shQuote typeName) ::
    values.flatMap fun (key, value) ↦
      -- an anonymous section is the last of its type
      let reference := if name = "" then "@" ++ typeName ++ "[-1]" else name
      renderAdded (config ++ "." ++ reference ++ "." ++ key) value
  | .delete config reference (some option) =>
    ["uci delete " ++ config ++ "." ++ reference ++ "." ++ option]
  | .delete config reference none => ["uci delete " ++ config ++ "." ++ reference]
  | .addList config reference option value =>
    ["uci add_list " ++ config ++ "." ++ reference ++ "." ++ option ++ "=" ++ shQuote value]
  | .commit config => ["uci commit " ++ config]
  | .shell command => [command]
  | .service name action => ["/etc/init.d/" ++ name ++ " " ++ action.text]
  | .comment text => ["# " ++ text]

/-- `render_shell`. -/
def renderShell (ops : List UciOp) : List String := ops.flatMap UciOp.render

/-- One rendered command. Comments are not run, and a command with a NUL in it cannot be. -/
def executeCommand (fresh : List UciSection → String → String) (store : UciStore)
    (command : String) : UciStore :=
  if "# ".toList <+: command.toList ∨ '\x00' ∈ command.toList then store
  else Shell.run (runCommand fresh) store command.toList

/-- `execute_shell`. -/
def executeShell (fresh : List UciSection → String → String) (store : UciStore)
    (ops : List UciOp) : UciStore :=
  (renderShell ops).foldl (executeCommand fresh) store

/-! ### What the rendered commands do -/

/-- What `validate_identifier` accepts. -/
def IsIdentifier (name : String) : Prop := validateIdentifier name = .ok ()

instance decidableIsIdentifier (name : String) : Decidable (IsIdentifier name) :=
  inferInstanceAs (Decidable (validateIdentifier name = .ok ()))

theorem isIdentifier_iff (name : String) :
    IsIdentifier name ↔
      name ≠ "" ∧ ∀ character ∈ name.toList, isIdentifierChar character = true := by
  unfold IsIdentifier validateIdentifier
  by_cases hempty : name = ""
  · simp [hempty]
  · rw [if_neg hempty]
    cases hfind : name.toList.find? (fun character ↦ !isIdentifierChar character) with
    | none => simpa [hempty] using hfind
    | some character =>
      refine iff_of_false (by simp) (fun hall ↦ ?_)
      have hinvalid := List.find?_some hfind
      have hvalid := hall.2 character (List.mem_of_find?_eq_some hfind)
      simp [hvalid] at hinvalid

/-- Characters of identifiers mean nothing to the shell, end no path and are not NUL. -/
theorem isIdentifierChar_spec {character : Char} (hvalid : isIdentifierChar character = true) :
    Shell.isPlain character = true ∧ character ≠ '=' ∧ character ≠ '\x00' := by
  have hothers : ∀ other : Char, isIdentifierChar other = false → character ≠ other := by
    intro other hother hequal
    rw [hequal, hother] at hvalid
    exact absurd hvalid (by decide)
  refine ⟨?_, hothers _ (by decide), hothers _ (by decide)⟩
  have hspecial : ∀ other ∈ Shell.special, isIdentifierChar other = false := by
    intro other hother
    simp only [Shell.special, List.mem_cons, List.not_mem_nil, or_false] at hother
    rcases hother with
      rfl | rfl | rfl | rfl | rfl | rfl | rfl | rfl | rfl | rfl | rfl | rfl | rfl | rfl | rfl | rfl
    all_goals decide
  have hnotin : character ∉ Shell.special :=
    fun hmem ↦ hothers character (hspecial character hmem) rfl
  rw [Shell.isPlain, Bool.not_eq_true', ← Bool.not_eq_true, List.contains_iff_mem]
  exact hnotin

/-- A path on the command line: characters of identifiers, and not empty. -/
structure IsPathText (text : List Char) : Prop where
  nonempty : text ≠ []
  valid : ∀ character ∈ text, isIdentifierChar character = true

theorem IsIdentifier.isPathText {name : String} (hname : IsIdentifier name) :
    IsPathText name.toList := by
  rw [isIdentifier_iff] at hname
  exact ⟨by simpa using hname.1, hname.2⟩

theorem IsPathText.append {first second : List Char} (hfirst : IsPathText first)
    (hsecond : IsPathText second) : IsPathText (first ++ '.' :: second) := by
  refine ⟨by simp, fun character hmem ↦ ?_⟩
  rcases List.mem_append.mp hmem with hleft | hright
  · exact hfirst.valid character hleft
  · rcases List.mem_cons.mp hright with rfl | htail
    · decide
    · exact hsecond.valid character htail

theorem IsPathText.isPlain {text : List Char} (htext : IsPathText text) :
    text ≠ [] ∧ ∀ character ∈ text, Shell.isPlain character = true :=
  ⟨htext.nonempty, fun character hmem ↦ (isIdentifierChar_spec (htext.valid character hmem)).1⟩

/-- A path is one word. -/
theorem IsPathText.writes {text : List Char} (htext : IsPathText text) :
    Shell.Writes text (text.map .bare) :=
  Shell.writes_bare htext.isPlain.1 htext.isPlain.2

theorem toList_shQuote (value : String) : (shQuote value).toList = Shell.quote value.toList := by
  have hescaped : (String.ofList (value.toList.flatMap Shell.escapeQuote)).toList =
      value.toList.flatMap Shell.escapeQuote := String.toList_ofList
  have happend : (shQuote value).toList =
      "'".toList ++ (String.ofList (value.toList.flatMap Shell.escapeQuote)).toList ++
        "'".toList := by
    rw [← String.toList_append, ← String.toList_append]
    rfl
  rw [happend, hescaped]
  rfl

/-- So is a path with a quoted value. -/
theorem IsPathText.writes_assignment {path : List Char} (hpath : IsPathText path)
    (value : String) :
    Shell.Writes (path ++ '=' :: (shQuote value).toList)
      (path.map .bare ++ .bare '=' :: Shell.quoteMarks value.toList) := by
  have hplain : ∀ character ∈ path ++ ['='], Shell.isPlain character = true :=
    List.forall_mem_append.mpr ⟨hpath.isPlain.2, by simp [Shell.isPlain, Shell.special]⟩
  have hwrites := Shell.writes_quoted hplain value.toList
  rw [← toList_shQuote, List.append_assoc, List.map_append, List.append_assoc] at hwrites
  exact hwrites

theorem text_assignment (path value : List Char) :
    Shell.Word.text (path.map .bare ++ .bare '=' :: Shell.quoteMarks value) =
      path ++ '=' :: value := by
  have hbare := Shell.text_map_bare path
  have hquoted := Shell.text_quoteMarks value
  unfold Shell.Word.text at hbare hquoted ⊢
  rw [List.filterMap_append, List.filterMap_cons, hbare, hquoted]

/-- The program and one of its commands, in front of the arguments. -/
theorem taken_uci {verb : List Char} (hverb : IsPathText verb) :
    Shell.Taken ("uci".toList ++ ' ' :: verb)
      ⟨some (verb.map .bare), ["uci".toList.map .bare], false⟩ := by
  have huci : IsPathText "uci".toList := ⟨by simp, by simp [isIdentifierChar]⟩
  exact huci.writes.taken.append_word hverb.writes

/-- A command that names no comment and holds no NUL is read and run. -/
theorem executeCommand_eq (fresh : List UciSection → String → String) (store : UciStore)
    {command : String} {rest : List Char} (hcommand : command.toList = "uci".toList ++ rest)
    (hnul : '\x00' ∉ rest) :
    executeCommand fresh store command = Shell.run (runCommand fresh) store command.toList := by
  unfold executeCommand
  rw [if_neg]
  rw [hcommand]
  rintro (hcomment | hmem)
  · simp at hcomment
  · simp only [List.mem_append] at hmem
    exact hmem.elim (by simp) hnul

theorem runCommand_uci (fresh : List UciSection → String → String) (store : UciStore)
    (arguments : List (List Char)) :
    (runCommand fresh store ("uci".toList :: arguments)).1 =
      (uci fresh store arguments).getD store := by
  simp only [runCommand, if_true]
  cases uci fresh store arguments <;> rfl

theorem nul_notMem_pathText {path : List Char} (hpath : IsPathText path) : '\x00' ∉ path :=
  fun hmem ↦ (isIdentifierChar_spec (hpath.valid _ hmem)).2.2 rfl

theorem nul_notMem_shQuote {value : String} (hvalue : '\x00' ∉ value.toList) :
    '\x00' ∉ (shQuote value).toList := by
  rw [toList_shQuote, Shell.quote]
  intro hmem
  simp only [List.mem_cons, List.mem_append, List.mem_flatMap, List.not_mem_nil, or_false] at hmem
  rcases hmem with hquote | ⟨character, hcharacter, hmem⟩ | hquote
  · exact absurd hquote (by decide)
  · unfold Shell.escapeQuote at hmem
    split at hmem
    · simp at hmem
    · rw [List.mem_singleton] at hmem
      exact hvalue (hmem ▸ hcharacter)
  · exact absurd hquote (by decide)

/-- An identifier that is one part of a path. -/
structure IsPart (name : String) : Prop where
  identifier : IsIdentifier name
  undotted : '.' ∉ name.toList

theorem IsPart.option_path {config reference key : String} (hconfig : IsPart config)
    (hreference : IsPart reference) (hkey : IsPart key) :
    IsPathText (config ++ "." ++ reference ++ "." ++ key).toList ∧
      parsePath (config ++ "." ++ reference ++ "." ++ key).toList =
        some (.option config reference key) := by
  have hlist : (config ++ "." ++ reference ++ "." ++ key).toList =
      config.toList ++ '.' :: (reference.toList ++ '.' :: key.toList) := by
    simp [String.toList_append]
  rw [hlist]
  exact ⟨hconfig.identifier.isPathText.append
    (hreference.identifier.isPathText.append hkey.identifier.isPathText),
    parsePath_option hconfig.undotted hreference.undotted hkey.undotted⟩

theorem IsPart.section_path {config reference : String} (hconfig : IsPart config)
    (hreference : IsPart reference) :
    IsPathText (config ++ "." ++ reference).toList ∧
      parsePath (config ++ "." ++ reference).toList = some (.section config reference) := by
  have hlist : (config ++ "." ++ reference).toList =
      config.toList ++ '.' :: reference.toList := by
    simp [String.toList_append]
  rw [hlist]
  exact ⟨hconfig.identifier.isPathText.append hreference.identifier.isPathText,
    parsePath_section hconfig.undotted hreference.undotted⟩

theorem equals_notMem_pathText {path : List Char} (hpath : IsPathText path) : '=' ∉ path :=
  fun hmem ↦ (isIdentifierChar_spec (hpath.valid _ hmem)).2.1 rfl

section Commands

variable (fresh : List UciSection → String → String) (store : UciStore)

/-- A command with an assignment for its argument. -/
theorem executeCommand_assignment {verb : List Char} (hverb : IsPathText verb) {path : String}
    (hpath : IsPathText path.toList) {value : String} (hvalue : '\x00' ∉ value.toList)
    {command : String} (hcommand : command.toList =
      ("uci".toList ++ ' ' :: verb) ++ ' ' :: (path.toList ++ '=' :: (shQuote value).toList)) :
    executeCommand fresh store command =
      (uci fresh store [verb, path.toList ++ '=' :: value.toList]).getD store := by
  have htaken := (taken_uci hverb).append_word (hpath.writes_assignment value)
  have hrest : command.toList = "uci".toList ++ (' ' :: verb ++
      ' ' :: (path.toList ++ '=' :: (shQuote value).toList)) := by
    rw [hcommand, List.append_assoc]
  rw [executeCommand_eq fresh store hrest]
  · rw [hcommand, htaken.run_eq]
    simp only [List.map_append, List.map_cons, List.map_nil, text_assignment, Shell.text_map_bare]
    exact runCommand_uci fresh store _
  · simp only [List.mem_append, List.mem_cons]
    rintro ((hblank | hmem) | hblank | hmem | hequals | hmem)
    · exact absurd hblank (by decide)
    · exact nul_notMem_pathText hverb hmem
    · exact absurd hblank (by decide)
    · exact nul_notMem_pathText hpath hmem
    · exact absurd hequals (by decide)
    · exact nul_notMem_shQuote hvalue hmem

theorem executeCommand_set {path : String} {parsed : UciPath} (hpath : IsPathText path.toList)
    (hparsed : parsePath path.toList = some parsed) {value : String}
    (hvalue : '\x00' ∉ value.toList) :
    executeCommand fresh store ("uci set " ++ path ++ "=" ++ shQuote value) =
      (match parsed with
        | .package _ => none
        | .section config reference => store.setSection config reference value
        | .option config reference key =>
          store.modifyOptions config reference (·.assign key (.single value))).getD store := by
  have hverb : IsPathText "set".toList := ⟨by simp, by simp [isIdentifierChar]⟩
  rw [executeCommand_assignment fresh store hverb hpath hvalue (by simp [String.toList_append])]
  show (uciSet store _).getD store = _
  rw [uciSet, parseAssignment_append (equals_notMem_pathText hpath), hparsed]
  rfl

theorem executeCommand_addList {config reference key : String} (hconfig : IsPart config)
    (hreference : IsPart reference) (hkey : IsPart key) {value : String}
    (hvalue : '\x00' ∉ value.toList) :
    executeCommand fresh store
        ("uci add_list " ++ (config ++ "." ++ reference ++ "." ++ key) ++ "=" ++ shQuote value) =
      store.update config reference (·.append key value) := by
  have hverb : IsPathText "add_list".toList := ⟨by simp, by simp [isIdentifierChar]⟩
  obtain ⟨hpath, hparsed⟩ := hconfig.option_path hreference hkey
  rw [executeCommand_assignment fresh store hverb hpath hvalue (by simp [String.toList_append])]
  show (uciAddList store _).getD store = _
  rw [uciAddList, parseAssignment_append (equals_notMem_pathText hpath), hparsed]
  rfl

/-- A command with names for its arguments. -/
theorem executeCommand_plain {verb : List Char} (hverb : IsPathText verb)
    {arguments : List (List Char)} (harguments : ∀ argument ∈ arguments, IsPathText argument)
    {command : String} (hcommand : command.toList =
      "uci".toList ++ ' ' :: verb ++ arguments.flatMap (' ' :: ·)) :
    executeCommand fresh store command = (uci fresh store (verb :: arguments)).getD store := by
  obtain ⟨last, words, htaken, hwords⟩ := (taken_uci hverb).append_plain
    fun argument hmem ↦ (harguments argument hmem).isPlain
  have hrest : command.toList =
      "uci".toList ++ (' ' :: verb ++ arguments.flatMap (' ' :: ·)) := by
    rw [hcommand, List.append_assoc]
  rw [executeCommand_eq fresh store hrest]
  · rw [hcommand, htaken.run_eq, hwords]
    have hmap : (arguments.map (·.map Shell.Mark.bare)).map Shell.Word.text = arguments := by
      rw [List.map_map]
      exact List.map_id'' (fun argument ↦ Shell.text_map_bare argument) arguments
    simp only [List.map_append, List.map_cons, List.map_nil, Shell.text_map_bare, hmap]
    exact runCommand_uci fresh store _
  · simp only [List.mem_append, List.mem_cons, List.mem_flatMap]
    rintro ((hblank | hmem) | ⟨argument, hargument, hblank | hmem⟩)
    · exact absurd hblank (by decide)
    · exact nul_notMem_pathText hverb hmem
    · exact absurd hblank (by decide)
    · exact nul_notMem_pathText (harguments argument hargument) hmem

theorem executeCommand_delete {path : String} {parsed : UciPath} (hpath : IsPathText path.toList)
    (hparsed : parsePath path.toList = some parsed) :
    executeCommand fresh store ("uci delete " ++ path) =
      (match parsed with
        | .package _ => none
        | .section config reference => store.deleteSection config reference
        | .option config reference key =>
          store.deleteOption config reference key).getD store := by
  have hverb : IsPathText "delete".toList := ⟨by simp, by simp [isIdentifierChar]⟩
  have harguments : ∀ argument ∈ [path.toList], IsPathText argument := by simpa using hpath
  rw [executeCommand_plain fresh store hverb harguments (by simp [String.toList_append])]
  show (uciDelete store path.toList).getD store = _
  rw [uciDelete, hparsed]
  rfl

/-- A delete whose messages are thrown away. -/
theorem executeCommand_delete_quiet {path : String} (hpath : IsPathText path.toList) :
    executeCommand fresh store ("uci delete " ++ path ++ " 2>/dev/null || true") =
      executeCommand fresh store ("uci delete " ++ path) := by
  have hverb : IsPathText "delete".toList := ⟨by simp, by simp [isIdentifierChar]⟩
  have htaken := (taken_uci hverb).append_word hpath.writes
  have hnul : '\x00' ∉ " delete ".toList ++ path.toList := by
    rw [List.mem_append]
    rintro (hmem | hmem)
    · simp at hmem
    · exact nul_notMem_pathText hpath hmem
  have hplain : ("uci delete " ++ path).toList =
      "uci".toList ++ (" delete ".toList ++ path.toList) := by
    simp [String.toList_append]
  have hquiet : ("uci delete " ++ path ++ " 2>/dev/null || true").toList =
      "uci".toList ++ (" delete ".toList ++ path.toList ++ " 2>/dev/null || true".toList) := by
    simp [String.toList_append]
  have hnulQuiet : '\x00' ∉ " delete ".toList ++ path.toList ++ " 2>/dev/null || true".toList := by
    rw [List.mem_append]
    exact fun hmem ↦ hmem.elim hnul (by simp)
  have htrue : ∀ state, (runCommand fresh state ["true".toList]).1 = state := fun _ ↦ rfl
  rw [executeCommand_eq fresh store hplain hnul, executeCommand_eq fresh store hquiet hnulQuiet]
  have hsplit : ("uci delete " ++ path).toList =
      "uci".toList ++ ' ' :: "delete".toList ++ ' ' :: path.toList := by
    simp [String.toList_append]
  have hsplitQuiet : ("uci delete " ++ path ++ " 2>/dev/null || true").toList =
      "uci".toList ++ ' ' :: "delete".toList ++ ' ' :: path.toList ++
        " 2>/dev/null || true".toList := by
    simp [String.toList_append]
  rw [hsplit, hsplitQuiet, htaken.run_quiet htrue, htaken.run_eq]

theorem executeCommand_add {config typeName : String} (hconfig : IsIdentifier config)
    (htype : IsIdentifier typeName) :
    executeCommand fresh store ("uci add " ++ config ++ " " ++ typeName) =
      (store.addSection config fresh typeName ∅).getD store := by
  have hverb : IsPathText "add".toList := ⟨by simp, by simp [isIdentifierChar]⟩
  have harguments : ∀ argument ∈ [config.toList, typeName.toList], IsPathText argument := by
    simpa using ⟨hconfig.isPathText, htype.isPathText⟩
  rw [executeCommand_plain fresh store hverb harguments (by simp [String.toList_append])]
  show (store.addSection (String.ofList config.toList) fresh (String.ofList typeName.toList) ∅).getD
    store = _
  rw [String.ofList_toList, String.ofList_toList]

theorem executeCommand_commit {config : String} (hconfig : IsIdentifier config) :
    executeCommand fresh store ("uci commit " ++ config) = (store.commit config).getD store := by
  have hverb : IsPathText "commit".toList := ⟨by simp, by simp [isIdentifierChar]⟩
  have harguments : ∀ argument ∈ [config.toList], IsPathText argument := by
    simpa using hconfig.isPathText
  rw [executeCommand_plain fresh store hverb harguments (by simp [String.toList_append])]
  show (store.commit (String.ofList config.toList)).getD store = _
  rw [String.ofList_toList]

/-- A service is started and stopped without a change of the configuration. -/
theorem executeCommand_service {name : String} (hname : IsIdentifier name)
    (action : ServiceAction) :
    executeCommand fresh store ("/etc/init.d/" ++ name ++ " " ++ action.text) = store := by
  unfold executeCommand
  split
  · rfl
  · have hprogram : Shell.Writes ("/etc/init.d/".toList ++ name.toList)
        (("/etc/init.d/".toList ++ name.toList).map .bare) := by
      apply Shell.writes_bare (by simp)
      intro next hnext
      rcases List.mem_append.mp hnext with hfixed | hmem
      · have hall : ("/etc/init.d/".toList.all Shell.isPlain) = true := by rfl
        exact List.all_eq_true.mp hall next hfixed
      · exact (isIdentifierChar_spec (hname.isPathText.valid next hmem)).1
    have haction : Shell.Writes action.text.toList (action.text.toList.map .bare) := by
      apply Shell.writes_bare
      · cases action <;> simp [ServiceAction.text]
      · have hall : (action.text.toList.all Shell.isPlain) = true := by cases action <;> rfl
        exact List.all_eq_true.mp hall
    have htaken := hprogram.taken.append_word haction
    have hlist : ("/etc/init.d/" ++ name ++ " " ++ action.text).toList =
        "/etc/init.d/".toList ++ name.toList ++ ' ' :: action.text.toList := by
      simp [String.toList_append]
    rw [hlist, htaken.run_eq]
    simp only [List.nil_append, List.singleton_append, List.map_cons, List.map_nil,
      Shell.text_map_bare, runCommand]
    rw [if_neg (by simp)]

theorem executeCommand_comment (text : String) :
    executeCommand fresh store ("# " ++ text) = store := by
  unfold executeCommand
  rw [if_pos]
  left
  rw [String.toList_append]
  exact List.prefix_append _ _

end Commands

/-! ### rpcd -/

/-- The values as a JSON object, where the last of two equal keys counts. -/
def jsonValues (values : List (String × OpValue)) : UciOptions :=
  values.foldl (fun object entry ↦ object.insert entry.1 entry.2) ∅

/-- rpcd takes the members of the object one after the other. -/
def mergeValues (options object : UciOptions) : UciOptions :=
  object.toList.foldl (fun options entry ↦ options.assign entry.1 entry.2) options

/-- The call for one operation; `none` if it is refused. -/
def UciOp.call (fresh : List UciSection → String → String) (store : UciStore) :
    UciOp → Option UciStore
  | .set config reference values =>
    store.modifyOptions config reference (mergeValues · (jsonValues values))
  | .add config typeName _ values =>
    store.addSection config fresh typeName (mergeValues ∅ (jsonValues values))
  | .delete config reference none => store.deleteSection config reference
  | .delete config reference (some option) => store.deleteOption config reference option
  | .addList config reference option value =>
    -- there is no call that appends, so the option is set to a list of one value
    store.modifyOptions config reference (mergeValues · (jsonValues [(option, .list [value])]))
  | .commit config => store.commit config
  | .shell _ | .service _ _ | .comment _ => some store

/-- `execute_ubus`. -/
def executeUbus (fresh : List UciSection → String → String) (store : UciStore)
    (ops : List UciOp) : UciStore :=
  ops.foldl (fun store op ↦ (op.call fresh store).getD store) store

end Tollgate
