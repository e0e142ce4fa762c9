import Tollgate.Library.ShellWords
import Tollgate.Net.UciOps

/-!
# What rendered commands say

`render_shell` against the operations it renders. Each of its commands is a `RenderedCommand`: the
program and the arguments it is meant to run (`arguments`), and the text it is (`text`). Values are
in single quotes; configurations, sections, keys, the type of an anonymous section and the names of
services are not, and nothing looks at them before.

A value in single quotes is one word with what stands in front of it, whatever is in it
(`shQuote_one_word`). `says_text_iff` tells what the shell makes of a command with any text in the
other places, and `rendersAsIntended_iff` the same for whole lists of operations.
-/

set_option autoImplicit false
set_option relaxedAutoImplicit false

namespace Tollgate

open Shell

/-! ### Quoted values -/

/-- A letter, for which every character beyond ASCII passes, a digit, a dot, an underscore or an
equals sign. -/
def isAssignmentChar (character : Char) : Bool :=
  character.isAlphanum || decide (128 ≤ character.toNat) || ['.', '_', '='].contains character

/-- None of these characters means anything to the shell. -/
theorem isAssignmentChar_spec {character : Char} (hvalid : isAssignmentChar character = true) :
    isPlain character = true ∧ character ∉ ['*', '?', '[', '~'] := by
  have hothers {other : Char} (hother : isAssignmentChar other = false) : character ≠ other := by
    rintro rfl
    rw [hvalid] at hother
    exact Bool.noConfusion hother
  refine ⟨?_, ?_⟩
  · have hnotin : character ∉ special := by
      simp only [special, List.mem_cons, List.not_mem_nil, or_false, not_or]
      refine ⟨?_, ?_, ?_, ?_, ?_, ?_, ?_, ?_, ?_, ?_, ?_, ?_, ?_, ?_, ?_, ?_⟩
      all_goals exact hothers (by decide)
    rw [isPlain, Bool.not_eq_true', ← Bool.not_eq_true, List.contains_iff_mem]
    exact hnotin
  · simp only [List.mem_cons, List.not_mem_nil, or_false, not_or]
    refine ⟨?_, ?_, ?_, ?_⟩
    all_goals exact hothers (by decide)

/-- A quoted value, and such characters in front of it, are one word and nothing else, with the
characters of both. Nothing in it is an expansion or a substitution, and the shell replaces it by
nothing. -/
theorem shQuote_one_word {front : String}
    (hfront : ∀ character ∈ front.toList, isAssignmentChar character = true) (value : String) :
    ∃ word, segments (front ++ shQuote value).toList = [⟨[word], '\n'⟩] ∧
      Word.text word = (front ++ value).toList ∧ (∀ mark ∈ word, mark.isLiteral = true) ∧
      ∀ around : Surroundings, ¬ around.Replaces word := by
  have hplain (character : Char) (hmem : character ∈ front.toList) :
      isPlain character = true := (isAssignmentChar_spec (hfront character hmem)).1
  have hwrites := writes_quoted hplain value.toList
  -- what is not quoted is in front of the value
  have hpattern : Word.isPattern
      (front.toList.map Mark.bare ++ quoteMarks value.toList) = false := by
    refine not_isPattern fun character hmem ↦ ?_
    rcases List.mem_append.mp hmem with hbare | hquoted
    · obtain ⟨other, hother, hsame⟩ := List.mem_map.mp hbare
      rw [← Mark.bare.inj hsame]
      exact (isAssignmentChar_spec (hfront other hother)).2
    · exact absurd hquoted (bare_notMem_quoteMarks value.toList character)
  refine ⟨front.toList.map Mark.bare ++ quoteMarks value.toList, ?_, ?_, hwrites.literal, ?_⟩
  · rw [String.toList_append, toList_shQuote, hwrites.taken.segments_eq, List.nil_append]
  · rw [text_append, text_map_bare, text_quoteMarks, String.toList_append]
  · rintro around ⟨hreplaced, -⟩
    rw [hpattern] at hreplaced
    exact Bool.noConfusion hreplaced

/-- The key of a network, with quotes at both ends and in a row, and what would be run outside of
them. -/
theorem shQuote_one_word_hostileKey :
    ∃ word, segments ("wireless.sta_radio0.key=" ++ shQuote "'a''b\n; $(reboot) \\'").toList =
        [⟨[word], '\n'⟩] ∧
      Word.text word = ("wireless.sta_radio0.key=" ++ "'a''b\n; $(reboot) \\'").toList ∧
      (∀ mark ∈ word, mark.isLiteral = true) ∧ ∀ around : Surroundings, ¬ around.Replaces word :=
  shQuote_one_word (by simp [isAssignmentChar]) _

/-! ### Commands -/

/-- The name of the command. -/
def UciVerb.text : UciVerb → String
  | .set => "set"
  | .addList => "add_list"
  | .delete => "delete"
  | .add => "add"
  | .commit => "commit"

/-- What a command line starts with. -/
def UciVerb.front : UciVerb → String
  | .set => "uci set "
  | .addList => "uci add_list "
  | .delete => "uci delete "
  | .add => "uci add "
  | .commit => "uci commit "

/-- The commands that operations are rendered as. -/
inductive RenderedCommand
  | assign (verb : UciVerb) (path value : String)
  | onPath (verb : UciVerb) (path : String) (quiet : Bool)
  | addSection (config typeName : String)
  | service (name : String) (action : ServiceAction)
  | comment (text : String)

/-- The fixed suffix that throws messages away and makes a failure a success. -/
def quietSuffix (quiet : Bool) : String :=
  if quiet then " 2>/dev/null || true" else ""

namespace RenderedCommand

/-- The text that the shell is given. -/
def text : RenderedCommand → String
  | .assign verb path value => verb.front ++ (path ++ ("=" ++ shQuote value))
  | .onPath verb path quiet => verb.front ++ (path ++ quietSuffix quiet)
  | .addSection config typeName => "uci add " ++ (config ++ (" " ++ typeName))
  | .service name action => "/etc/init.d/" ++ (name ++ (" " ++ action.text))
  | .comment text => "# " ++ text

/-- The program and its arguments. -/
def arguments : RenderedCommand → List (List Char)
  | .assign verb path value =>
    ["uci".toList, verb.text.toList, path.toList ++ '=' :: value.toList]
  | .onPath verb path _ => ["uci".toList, verb.text.toList, path.toList]
  | .addSection config typeName => ["uci".toList, "add".toList, config.toList, typeName.toList]
  | .service name action => ["/etc/init.d/".toList ++ name.toList, action.text.toList]
  | .comment _ => []

/-- What comes behind the command. -/
def suffix : RenderedCommand → List Char
  | .onPath _ _ quiet => (quietSuffix quiet).toList
  | .assign _ _ _ | .addSection _ _ | .service _ _ | .comment _ => []

/-- The words of the command when its names are read as they stand. -/
def words : RenderedCommand → List Word
  | .assign verb path value =>
    ["uci".toList.map .bare, verb.text.toList.map .bare,
      path.toList.map .bare ++ .bare '=' :: quoteMarks value.toList]
  | .onPath verb path _ =>
    ["uci".toList.map .bare, verb.text.toList.map .bare, path.toList.map .bare]
  | .addSection config typeName =>
    ["uci".toList.map .bare, "add".toList.map .bare, config.toList.map .bare,
      typeName.toList.map .bare]
  | .service name action =>
    [("/etc/init.d/".toList ++ name.toList).map .bare, action.text.toList.map .bare]
  | .comment _ => []

/-- The names in the command are there, and mean nothing to the shell. -/
def HasBareNames : RenderedCommand → Prop
  | .assign _ path _ => isBareWord false path.toList = true
  | .onPath _ path _ => path ≠ "" ∧ isBareWord false path.toList = true
  | .addSection config typeName => (config ≠ "" ∧ isBareWord false config.toList = true) ∧
      (typeName ≠ "" ∧ isBareWord false typeName.toList = true)
  | .service name _ => isBareWord true name.toList = true
  | .comment _ => True

end RenderedCommand

/-- The commands for one value. -/
def setCommands (path : String) : OpValue → List RenderedCommand
  | .single value => [.assign .set path value]
  | .list items => .onPath .delete path true :: items.map fun item ↦ .assign .addList path item

/-- The commands for one value of a section that was just added. -/
def addedCommands (path : String) : OpValue → List RenderedCommand
  | .single value => [.assign .set path value]
  | .list items => items.map fun item ↦ .assign .addList path item

/-- The commands of one operation. -/
def UciOp.commands : UciOp → List RenderedCommand
  | .set config reference values =>
    values.flatMap fun (key, value) ↦ setCommands (config ++ "." ++ reference ++ "." ++ key) value
  | .add config typeName name values =>
    (if name = "" then .addSection config typeName
      else .assign .set (config ++ "." ++ name) typeName) ::
    values.flatMap fun (key, value) ↦
      let reference := if name = "" then "@" ++ typeName ++ "[-1]" else name
      addedCommands (config ++ "." ++ reference ++ "." ++ key) value
  | .delete config reference (some option) =>
    [.onPath .delete (config ++ "." ++ reference ++ "." ++ option) false]
  | .delete config reference none => [.onPath .delete (config ++ "." ++ reference) false]
  | .addList config reference option value =>
    [.assign .addList (config ++ "." ++ reference ++ "." ++ option) value]
  | .commit config => [.onPath .commit config false]
  | .shell _ => []
  | .service name action => [.service name action]
  | .comment text => [.comment text]

/-! ### They are what is rendered -/

theorem renderSet_eq (path : String) (value : OpValue) :
    renderSet path value = (setCommands path value).map RenderedCommand.text := by
  cases value with
  | single value => simp [renderSet, setCommands, RenderedCommand.text, UciVerb.front,
      String.append_assoc]
  | list items => simp [renderSet, setCommands, RenderedCommand.text, UciVerb.front, quietSuffix,
      String.append_assoc]

theorem renderAdded_eq (path : String) (value : OpValue) :
    renderAdded path value = (addedCommands path value).map RenderedCommand.text := by
  cases value with
  | single value => simp [renderAdded, addedCommands, RenderedCommand.text, UciVerb.front,
      String.append_assoc]
  | list items => simp [renderAdded, addedCommands, RenderedCommand.text, UciVerb.front,
      String.append_assoc]

theorem render_eq {op : UciOp} (hshell : ∀ command, op ≠ .shell command) :
    op.render = op.commands.map RenderedCommand.text := by
  cases op with
  | set config reference values =>
    simp [UciOp.render, UciOp.commands, renderSet_eq, List.map_flatMap]
  | add config typeName name values =>
    by_cases hname : name = ""
    · simp [UciOp.render, UciOp.commands, renderAdded_eq, List.map_flatMap, hname,
        RenderedCommand.text, String.append_assoc]
    · simp [UciOp.render, UciOp.commands, renderAdded_eq, List.map_flatMap, hname,
        RenderedCommand.text, UciVerb.front, String.append_assoc]
  | delete config reference option =>
    cases option with
    | none => simp [UciOp.render, UciOp.commands, RenderedCommand.text, UciVerb.front, quietSuffix,
        String.append_assoc]
    | some option => simp [UciOp.render, UciOp.commands, RenderedCommand.text, UciVerb.front,
        quietSuffix, String.append_assoc]
  | addList config reference option value =>
    simp [UciOp.render, UciOp.commands, RenderedCommand.text, UciVerb.front, String.append_assoc]
  | commit config =>
    simp [UciOp.render, UciOp.commands, RenderedCommand.text, UciVerb.front, quietSuffix]
  | shell command => exact absurd rfl (hshell command)
  | service name action =>
    simp [UciOp.render, UciOp.commands, RenderedCommand.text, String.append_assoc]
  | comment text => rfl

/-! ### The text around a name -/

/-- The marks of what a command line starts with. -/
def UciVerb.frontMarks (verb : UciVerb) : List Mark :=
  "uci".toList.map .bare ++ (.blank :: (verb.text.toList.map .bare ++ [.blank]))

theorem reads_front (verb : UciVerb) :
    Reads .start verb.front.toList verb.frontMarks (.outside false) := by
  cases verb with
  | set => decide
  | addList => decide
  | delete => decide
  | add => decide
  | commit => decide

theorem shown_frontMarks (verb : UciVerb) : shown verb.frontMarks = verb.front.toList := by
  cases verb with
  | set => decide
  | addList => decide
  | delete => decide
  | add => decide
  | commit => decide

theorem isBareOrBlank_frontMarks (verb : UciVerb) :
    ∀ mark ∈ verb.frontMarks, mark = .blank ∨ ∃ character, mark = .bare character := by
  intro mark hmark
  simp only [UciVerb.frontMarks, List.mem_append, List.mem_cons, List.mem_map, List.not_mem_nil,
    or_false] at hmark
  rcases hmark with ⟨character, _, rfl⟩ | rfl | ⟨character, _, rfl⟩ | rfl
  · exact Or.inr ⟨character, rfl⟩
  · exact Or.inl rfl
  · exact Or.inr ⟨character, rfl⟩
  · exact Or.inl rfl

theorem isWordy_of_bareOrBlank {mark : Mark}
    (hmark : mark = .blank ∨ ∃ character, mark = .bare character) : mark.isWordy = true := by
  rcases hmark with rfl | ⟨character, rfl⟩
  · rfl
  · rfl

/-- The text around the path of an assignment. -/
def assignFrame (verb : UciVerb) (value : String) : Frame where
  front := verb.front.toList
  behind := '=' :: quote value.toList
  suffix := []
  inWord := false
  behindMarks := .bare '=' :: quoteMarks value.toList
  final_front := (reads_front verb).final
  shown_front := by rw [(reads_front verb).outputs, shown_frontMarks]
  wordy_front := by
    rw [(reads_front verb).outputs]
    exact fun mark hmark ↦ isWordy_of_bareOrBlank (isBareOrBlank_frontMarks verb mark hmark)
  plain_front := by cases verb <;> decide
  outputs_behind after := by
    have hreads : Reads (.outside true) (quote value.toList) (quoteMarks value.toList)
      (.outside true) := reads_quote value.toList true .text []
    show .bare '=' :: lexer.outputs (.outside true) (quote value.toList ++ ['\n']) = _
    rw [Transducer.outputs_append, hreads.outputs, hreads.final]
    rfl
  wordy_behind mark hmark := by
    rcases List.mem_cons.mp hmark with rfl | hvalue
    · rfl
    · exact Mark.isWordy_of_isLiteral (isLiteral_of_mem_quoteMarks hvalue)
  flat_suffix := by decide
  next := ⟨'=', _, rfl, by decide, by decide⟩

/-- The text around a path, with the suffix behind it. -/
def pathFrame (verb : UciVerb) (quiet : Bool) : Frame where
  front := verb.front.toList
  behind := []
  suffix := (quietSuffix quiet).toList
  inWord := false
  behindMarks := []
  final_front := (reads_front verb).final
  shown_front := by rw [(reads_front verb).outputs, shown_frontMarks]
  wordy_front := by
    rw [(reads_front verb).outputs]
    exact fun mark hmark ↦ isWordy_of_bareOrBlank (isBareOrBlank_frontMarks verb mark hmark)
  plain_front := by cases verb <;> decide
  outputs_behind after := by
    cases after <;> cases quiet <;> rfl
  wordy_behind mark hmark := absurd hmark List.not_mem_nil
  flat_suffix := by cases quiet <;> decide
  next := by
    cases quiet with
    | false => exact ⟨'\n', [], rfl, by decide, by decide⟩
    | true => exact ⟨' ', "2>/dev/null || true\n".toList, rfl, by decide, by decide⟩

/-- The text around the name of a service. -/
def serviceFrame (action : ServiceAction) : Frame where
  front := "/etc/init.d/".toList
  behind := ' ' :: action.text.toList
  suffix := []
  inWord := true
  behindMarks := .blank :: action.text.toList.map .bare
  final_front := by decide
  shown_front := by decide
  wordy_front := by decide
  plain_front := by decide
  outputs_behind after := by
    cases after <;> cases action <;> rfl
  wordy_behind := by
    cases action <;> decide
  flat_suffix := by decide
  next := ⟨' ', _, rfl, by decide, by decide⟩

/-! ### What is run -/

section Runs

variable (around : Surroundings)

/-- A verb and its path, with what belongs to the word of the path. -/
theorem wordsOf_front (verb : UciVerb) {word : Word} (hsome : word ≠ [])
    (hliteral : ∀ mark ∈ word, mark.isLiteral = true) :
    wordsOf (verb.frontMarks ++ word) =
      ["uci".toList.map .bare, verb.text.toList.map .bare, word] := by
  have hjoin : verb.frontMarks ++ word = List.intercalate [.blank]
      ["uci".toList.map .bare, verb.text.toList.map .bare, word] := by
    simp [UciVerb.frontMarks]
  have hverb : verb.text.toList.map Mark.bare ≠ [] := by
    cases verb with
    | set => decide
    | addList => decide
    | delete => decide
    | add => decide
    | commit => decide
  rw [hjoin]
  refine wordsOf_intercalate ?_ ?_
  · simp [hverb, hsome]
  · rw [List.forall_mem_cons, List.forall_mem_cons, List.forall_mem_singleton]
    exact ⟨fun mark ↦ isLiteral_of_mem_map_bare, fun mark ↦ isLiteral_of_mem_map_bare, hliteral⟩

/-- What starts a command line has nothing to lose and nothing that quotes. -/
theorem count_front (verb : UciVerb) :
    (∀ character ∈ ['"', '#', '\t'], verb.front.toList.count character = 0) ∧
      verb.front.toList.count '\\' = 0 := by
  rw [List.forall_mem_cons, List.forall_mem_cons, List.forall_mem_singleton]
  cases verb with
  | set => decide
  | addList => decide
  | delete => decide
  | add => decide
  | commit => decide

theorem isQuoting_of_mem_lost : ∀ character ∈ ['"', '#', '\t'], isQuoting character = false := by
  rw [List.forall_mem_cons, List.forall_mem_cons, List.forall_mem_singleton]
  decide

/-- A blank is none of the characters that a reading can lose. -/
theorem blank_beq_of_mem_lost :
    ∀ character ∈ ['"', '#', '\t'], (' ' == character) = false := by
  rw [List.forall_mem_cons, List.forall_mem_cons, List.forall_mem_singleton]
  decide

theorem text_frontMarks (verb : UciVerb) :
    Word.text verb.frontMarks = "uci".toList ++ verb.text.toList := by
  cases verb with
  | set => decide
  | addList => decide
  | delete => decide
  | add => decide
  | commit => decide

theorem assign_runs_iff (verb : UciVerb) (path value : String) :
    around.Runs [] (RenderedCommand.assign verb path value).text.toList
        (RenderedCommand.assign verb path value).arguments ↔
      (RenderedCommand.assign verb path value).HasBareNames ∧
        ∀ word ∈ (RenderedCommand.assign verb path value).words, ¬ around.Replaces word := by
  have htext : (RenderedCommand.assign verb path value).text.toList =
      verb.front.toList ++ (path.toList ++ ('=' :: quote value.toList ++ [])) := by
    simp [RenderedCommand.text, toList_shQuote]
  have hflatten : (RenderedCommand.assign verb path value).arguments.flatten =
      "uci".toList ++ (verb.text.toList ++ (path.toList ++ '=' :: value.toList)) := by
    simp [RenderedCommand.arguments]
  have hword : path.toList.map Mark.bare ++ Mark.bare '=' :: quoteMarks value.toList ≠ [] := by simp
  have hwords := wordsOf_front verb hword fun mark hmark ↦ by
    rcases List.mem_append.mp hmark with hpath | hvalue
    · exact isLiteral_of_mem_map_bare hpath
    · rcases List.mem_cons.mp hvalue with rfl | hquoted
      · rfl
      · exact isLiteral_of_mem_quoteMarks hquoted
  rw [htext]
  refine ((assignFrame verb value).runs_word_iff ?_ ?_ ?_).trans ?_
  · intro character hmem
    have hfront := (count_front verb).1 character hmem
    have hvalue := count_quote (isQuoting_of_mem_lost character hmem) value.toList
    rw [hflatten]
    show
      (verb.front.toList ++ (path.toList ++ ('=' :: quote value.toList ++ []))).count character ≤ _
    simp only [List.count_append, List.count_cons, List.append_nil, hfront, hvalue]
    omega
  · have hfront := (count_front verb).2
    have hvalue := count_backslash_quote value.toList
    rw [hflatten, countP_isQuoting]
    show (verb.front.toList ++ (path.toList ++ ('=' :: quote value.toList ++ []))).count '\\' +
      path.toList.count '\'' ≤ _
    simp only [List.count_append, List.count_cons, List.append_nil, hfront, hvalue]
    omega
  · show _ = Word.text (lexer.outputs .start verb.front.toList) ++
      (path.toList ++ Word.text (.bare '=' :: quoteMarks value.toList))
    have hbehind : Word.text (.bare '=' :: quoteMarks value.toList) = '=' :: value.toList :=
      (text_append [.bare '='] (quoteMarks value.toList)).trans
        (congrArg ('=' :: ·) (text_quoteMarks value.toList))
    rw [(reads_front verb).outputs, text_frontMarks, hbehind, hflatten, List.append_assoc]
  · dsimp only [assignFrame]
    rw [(reads_front verb).outputs, hwords]
    have hread : [("uci".toList.map Mark.bare), verb.text.toList.map Mark.bare,
        path.toList.map Mark.bare ++ Mark.bare '=' :: quoteMarks value.toList].map Word.text =
        (RenderedCommand.assign verb path value).arguments := by
      simp only [List.map_cons, List.map_nil, text_map_bare, text_assignment]
      rfl
    rw [hread]
    exact and_congr_right fun _ ↦ and_iff_right rfl

/-- The words of a command without quotes are not empty. -/
theorem argument_ne_nil {marked : List Mark} {arguments : List (List Char)}
    (hbare : ∀ mark ∈ marked, mark = .blank ∨ ∃ character, mark = .bare character)
    (harguments : (wordsOf marked).map Word.text = arguments) : [] ∉ arguments := by
  rw [← harguments]
  intro hmem
  obtain ⟨word, hword, hempty⟩ := List.mem_map.mp hmem
  exact text_ne_nil_of_mem_wordsOf hbare word hword hempty

theorem count_quietSuffix (quiet : Bool) :
    (∀ character ∈ ['"', '#', '\t'], (quietSuffix quiet).toList.count character = 0) ∧
      (quietSuffix quiet).toList.count '\\' = 0 := by
  rw [List.forall_mem_cons, List.forall_mem_cons, List.forall_mem_singleton]
  cases quiet with
  | false => decide
  | true => decide

theorem path_runs_iff (verb : UciVerb) (path : String) (quiet : Bool) :
    around.Runs (quietSuffix quiet).toList (RenderedCommand.onPath verb path quiet).text.toList
        (RenderedCommand.onPath verb path quiet).arguments ↔
      (RenderedCommand.onPath verb path quiet).HasBareNames ∧
        ∀ word ∈ (RenderedCommand.onPath verb path quiet).words, ¬ around.Replaces word := by
  have htext : (RenderedCommand.onPath verb path quiet).text.toList =
      verb.front.toList ++ (path.toList ++ ([] ++ (quietSuffix quiet).toList)) := by
    simp [RenderedCommand.text]
  have hflatten : (RenderedCommand.onPath verb path quiet).arguments.flatten =
      "uci".toList ++ (verb.text.toList ++ path.toList) := by
    simp [RenderedCommand.arguments]
  rw [htext]
  refine ((pathFrame verb quiet).runs_word_iff ?_ ?_ ?_).trans ?_
  · intro character hmem
    have hfront := (count_front verb).1 character hmem
    have hsuffix := (count_quietSuffix quiet).1 character hmem
    rw [hflatten]
    show (verb.front.toList ++ (path.toList ++ ([] ++ (quietSuffix quiet).toList))).count
      character ≤ _
    simp only [List.count_append, List.nil_append, hfront, hsuffix]
    omega
  · have hfront := (count_front verb).2
    have hsuffix := (count_quietSuffix quiet).2
    rw [hflatten, countP_isQuoting]
    show (verb.front.toList ++ (path.toList ++ ([] ++ (quietSuffix quiet).toList))).count '\\' +
      path.toList.count '\'' ≤ _
    simp only [List.count_append, List.nil_append, hfront, hsuffix]
    omega
  · show _ = Word.text (lexer.outputs .start verb.front.toList) ++ (path.toList ++ [])
    rw [(reads_front verb).outputs, text_frontMarks, hflatten, List.append_assoc, List.append_nil]
  · dsimp only [pathFrame]
    rw [(reads_front verb).outputs, List.append_nil]
    by_cases hempty : path = ""
    · refine iff_of_false ?_ fun hbenign ↦ hbenign.1.1 hempty
      rintro ⟨_, harguments, _⟩
      refine argument_ne_nil (fun mark hmark ↦ ?_) harguments ?_
      · rw [hempty] at hmark
        exact isBareOrBlank_frontMarks verb mark (by simpa using hmark)
      · simp [RenderedCommand.arguments, hempty]
    · have hword : path.toList.map Mark.bare ≠ [] := by simpa using hempty
      have hread : [("uci".toList.map Mark.bare), verb.text.toList.map Mark.bare,
          path.toList.map Mark.bare].map Word.text =
          (RenderedCommand.onPath verb path quiet).arguments := by
        simp only [List.map_cons, List.map_nil, text_map_bare]
        rfl
      rw [wordsOf_front verb hword fun mark ↦ isLiteral_of_mem_map_bare, hread]
      simp only [RenderedCommand.HasBareNames, RenderedCommand.words, ne_eq, hempty,
        not_false_eq_true, true_and]

theorem service_runs_iff (name : String) (action : ServiceAction) :
    around.Runs [] (RenderedCommand.service name action).text.toList
        (RenderedCommand.service name action).arguments ↔
      (RenderedCommand.service name action).HasBareNames ∧
        ∀ word ∈ (RenderedCommand.service name action).words, ¬ around.Replaces word := by
  have htext : (RenderedCommand.service name action).text.toList =
      "/etc/init.d/".toList ++ (name.toList ++ (' ' :: action.text.toList ++ [])) := by
    simp [RenderedCommand.text]
  have hflatten : (RenderedCommand.service name action).arguments.flatten =
      "/etc/init.d/".toList ++ (name.toList ++ action.text.toList) := by
    simp [RenderedCommand.arguments]
  have hjoin : "/etc/init.d/".toList.map Mark.bare ++
      (name.toList.map Mark.bare ++ Mark.blank :: action.text.toList.map .bare) =
        List.intercalate [.blank] (RenderedCommand.service name action).words := by
    simp [RenderedCommand.words]
  have hwords : wordsOf ("/etc/init.d/".toList.map Mark.bare ++
      (name.toList.map Mark.bare ++ Mark.blank :: action.text.toList.map .bare)) =
        (RenderedCommand.service name action).words := by
    rw [hjoin]
    refine wordsOf_intercalate ?_ ?_
    · cases action <;> simp [RenderedCommand.words, ServiceAction.text]
    · rw [RenderedCommand.words, List.forall_mem_cons, List.forall_mem_singleton]
      exact ⟨fun mark ↦ isLiteral_of_mem_map_bare, fun mark ↦ isLiteral_of_mem_map_bare⟩
  have hfront : lexer.outputs .start "/etc/init.d/".toList = "/etc/init.d/".toList.map .bare := by
    decide
  rw [htext]
  refine ((serviceFrame action).runs_word_iff ?_ ?_ ?_).trans ?_
  · intro character hmem
    have hblank := blank_beq_of_mem_lost character hmem
    rw [hflatten]
    show ("/etc/init.d/".toList ++ (name.toList ++ (' ' :: action.text.toList ++ []))).count
      character ≤ _
    simp only [List.count_append, List.count_cons, List.append_nil, hblank]
    exact Nat.le_refl _
  · rw [hflatten, countP_isQuoting]
    show ("/etc/init.d/".toList ++ (name.toList ++ (' ' :: action.text.toList ++ []))).count '\\' +
      name.toList.count '\'' ≤ _
    rw [List.append_nil, List.count_append, List.count_append, List.count_cons_of_ne (by decide)]
    simp only [List.count_append]
    omega
  · dsimp only [serviceFrame]
    rw [hfront, text_map_bare, hflatten, ← List.singleton_append, text_append, text_map_bare]
    rfl
  · dsimp only [serviceFrame]
    have hread : (RenderedCommand.service name action).words.map Word.text =
        (RenderedCommand.service name action).arguments := by
      simp only [RenderedCommand.words, List.map_cons, List.map_nil, text_map_bare]
      rfl
    rw [hfront, hwords, hread]
    exact and_congr_right fun _ ↦ and_iff_right rfl

/-- Texts of which nothing is missing have nothing that separates. -/
theorem inside_of_filter {first second : List Char}
    (hall : (first.filter fun character ↦ !separators.contains character) ++
      (second.filter fun character ↦ !separators.contains character) = first ++ second) :
    (∀ character ∈ first, separators.contains character = false) ∧
      ∀ character ∈ second, separators.contains character = false := by
  have hlength := congrArg List.length hall
  rw [List.length_append, List.length_append] at hlength
  have hfirst := List.length_filter_le (fun character ↦ !separators.contains character) first
  have hsecond := List.length_filter_le (fun character ↦ !separators.contains character) second
  have hinside {text : List Char}
      (hlength : (text.filter fun character ↦ !separators.contains character).length =
        text.length) : ∀ character ∈ text, separators.contains character = false :=
    fun character hmem ↦ by simpa using List.length_filter_eq_length_iff.mp hlength character hmem
  exact ⟨hinside (by omega), hinside (by omega)⟩

/-- The words of an anonymous section, neither name of which is empty. -/
theorem wordsOf_addSection {config typeName : String} (hconfig : config ≠ "")
    (htype : typeName ≠ "") :
    wordsOf (UciVerb.add.frontMarks ++
      (config.toList.map Mark.bare ++ ([Mark.blank] ++ typeName.toList.map Mark.bare))) =
        (RenderedCommand.addSection config typeName).words := by
  have hjoin : UciVerb.add.frontMarks ++
      (config.toList.map Mark.bare ++ ([Mark.blank] ++ typeName.toList.map Mark.bare)) =
        List.intercalate [.blank] (RenderedCommand.addSection config typeName).words := by
    simp [RenderedCommand.words, UciVerb.frontMarks, UciVerb.text]
  rw [hjoin]
  refine wordsOf_intercalate ?_ ?_
  · simp [RenderedCommand.words, hconfig, htype]
  · rw [RenderedCommand.words, List.forall_mem_cons, List.forall_mem_cons, List.forall_mem_cons,
      List.forall_mem_singleton]
    exact ⟨fun mark ↦ isLiteral_of_mem_map_bare, fun mark ↦ isLiteral_of_mem_map_bare,
      fun mark ↦ isLiteral_of_mem_map_bare, fun mark ↦ isLiteral_of_mem_map_bare⟩

theorem isBareOrBlank_addSection (config typeName : String) (mark : Mark)
    (hmark : mark ∈ UciVerb.add.frontMarks ++
      (config.toList.map Mark.bare ++ ([Mark.blank] ++ typeName.toList.map Mark.bare))) :
    mark = .blank ∨ ∃ character, mark = .bare character := by
  rcases List.mem_append.mp hmark with hfront | hmark
  · exact isBareOrBlank_frontMarks .add mark hfront
  · simp only [List.mem_append, List.mem_map, List.mem_singleton] at hmark
    rcases hmark with ⟨character, _, rfl⟩ | rfl | ⟨character, _, rfl⟩
    · exact Or.inr ⟨character, rfl⟩
    · exact Or.inl rfl
    · exact Or.inr ⟨character, rfl⟩

/-- The configuration and the type are one argument each. -/
theorem add_runs_iff (config typeName : String) :
    around.Runs [] (RenderedCommand.addSection config typeName).text.toList
        (RenderedCommand.addSection config typeName).arguments ↔
      (RenderedCommand.addSection config typeName).HasBareNames ∧
        ∀ word ∈ (RenderedCommand.addSection config typeName).words, ¬ around.Replaces word := by
  have htext : (RenderedCommand.addSection config typeName).text.toList =
      UciVerb.add.front.toList ++ ((config.toList ++ ' ' :: typeName.toList) ++ ([] ++ [])) := by
    simp [RenderedCommand.text, UciVerb.front]
  have hflatten : (RenderedCommand.addSection config typeName).arguments.flatten =
      "uci".toList ++ UciVerb.add.text.toList ++ (config.toList ++ typeName.toList) := by
    simp [RenderedCommand.arguments, UciVerb.text]
  have hmarks : (pathFrame .add false).bareMarks (config.toList ++ ' ' :: typeName.toList) =
      UciVerb.add.frontMarks ++
        (config.toList.map bareMark ++ ([Mark.blank] ++ typeName.toList.map bareMark)) := by
    show lexer.outputs .start UciVerb.add.front.toList ++ _ = _
    rw [(reads_front .add).outputs, List.map_append]
    exact congrArg _ (List.append_nil _)
  rw [htext]
  refine ((pathFrame .add false).runs_iff ?_ ?_).trans ?_
  · intro character hmem
    have hfront := (count_front .add).1 character hmem
    have hblank := blank_beq_of_mem_lost character hmem
    rw [hflatten]
    show (UciVerb.add.front.toList ++ ((config.toList ++ ' ' :: typeName.toList) ++
      ([] ++ []))).count character ≤ _
    simp only [List.count_append, List.count_cons, List.count_nil, hfront, hblank]
    simp
  · have hfront := (count_front .add).2
    rw [hflatten, countP_isQuoting]
    show (UciVerb.add.front.toList ++ ((config.toList ++ ' ' :: typeName.toList) ++
      ([] ++ []))).count '\\' + (config.toList ++ ' ' :: typeName.toList).count '\'' ≤ _
    have hback : (' ' :: typeName.toList).count '\\' = typeName.toList.count '\\' :=
      List.count_cons_of_ne (by decide)
    have hquote : (' ' :: typeName.toList).count '\'' = typeName.toList.count '\'' :=
      List.count_cons_of_ne (by decide)
    simp only [List.count_append, List.count_nil, hfront, hback, hquote]
    omega
  · rw [hmarks, isBare_append_cons (by decide) (by decide)]
    constructor
    · rintro ⟨⟨hconfig, htype⟩, hwordy, harguments, hreplaces⟩
      have hsaid := flatten_text_wordsOf hwordy
      have hblank : Word.text [.blank] = [] := rfl
      rw [harguments, hflatten, text_append, text_append, text_append, text_frontMarks,
        text_map_bareMark, text_map_bareMark, hblank, List.nil_append] at hsaid
      obtain ⟨hinsideConfig, hinsideType⟩ :=
        inside_of_filter (List.append_cancel_left hsaid).symm
      rw [map_bareMark hinsideConfig, map_bareMark hinsideType] at harguments hreplaces
      have hsome := argument_ne_nil (isBareOrBlank_addSection config typeName) harguments
      simp only [RenderedCommand.arguments, List.mem_cons, List.not_mem_nil, not_or] at hsome
      have hsomeConfig : config ≠ "" := fun hempty ↦ hsome.2.2.1 (by simp [hempty])
      have hsomeType : typeName ≠ "" := fun hempty ↦ hsome.2.2.2.1 (by simp [hempty])
      rw [wordsOf_addSection hsomeConfig hsomeType] at hreplaces
      exact ⟨⟨⟨hsomeConfig, isBareWord_iff.mpr ⟨hconfig, hinsideConfig⟩⟩,
        hsomeType, isBareWord_iff.mpr ⟨htype, hinsideType⟩⟩, hreplaces⟩
    · rintro ⟨⟨⟨hsomeConfig, hconfig⟩, hsomeType, htype⟩, hreplaces⟩
      obtain ⟨hbareConfig, hinsideConfig⟩ := isBareWord_iff.mp hconfig
      obtain ⟨hbareType, hinsideType⟩ := isBareWord_iff.mp htype
      have hread : (RenderedCommand.addSection config typeName).words.map Word.text =
          (RenderedCommand.addSection config typeName).arguments := by
        simp only [RenderedCommand.words, List.map_cons, List.map_nil, text_map_bare]
        rfl
      rw [map_bareMark hinsideConfig, map_bareMark hinsideType,
        wordsOf_addSection hsomeConfig hsomeType]
      exact ⟨⟨hbareConfig, hbareType⟩,
        fun mark hmark ↦ isWordy_of_bareOrBlank
          (isBareOrBlank_addSection config typeName mark hmark),
        hread, hreplaces⟩

end Runs

/-! ### Whole lists of operations -/

namespace RenderedCommand

/-- The shell does not run the text: there is a NUL in it, or it refuses it. -/
def IsRefused (around : Surroundings) (text : String) : Prop :=
  '\x00' ∈ text.toList ∨ around.refuses text.toList

/-- The text is refused, or runs the command and nothing else. Comments are not run. -/
def Says (around : Surroundings) (text : String) : RenderedCommand → Prop
  | .comment _ => True
  | command => IsRefused around text ∨ around.Runs command.suffix text.toList command.arguments

/-- The text is refused, or its names are bare and the shell replaces none of its words. -/
def IsPlain (around : Surroundings) : RenderedCommand → Prop
  | .comment _ => True
  | command => IsRefused around command.text ∨
      (command.HasBareNames ∧ ∀ word ∈ command.words, ¬ around.Replaces word)

theorem says_text_iff (around : Surroundings) (command : RenderedCommand) :
    command.Says around command.text ↔ command.IsPlain around := by
  cases command with
  | assign verb path value => exact or_congr_right (assign_runs_iff around verb path value)
  | onPath verb path quiet => exact or_congr_right (path_runs_iff around verb path quiet)
  | addSection config typeName => exact or_congr_right (add_runs_iff around config typeName)
  | service name action => exact or_congr_right (service_runs_iff around name action)
  | comment text => exact Iff.rfl

end RenderedCommand

/-- Every rendered text says what its operation says. -/
def RendersAsIntended (around : Surroundings) (ops : List UciOp) : Prop :=
  List.Forall₂ (fun text command ↦ command.Says around text) (renderShell ops)
    (ops.flatMap UciOp.commands)

theorem renderShell_eq {ops : List UciOp} (hshell : ∀ op ∈ ops, ∀ command, op ≠ .shell command) :
    renderShell ops = (ops.flatMap UciOp.commands).map RenderedCommand.text := by
  rw [renderShell, List.map_flatMap]
  exact List.flatMap_congr fun op hop ↦ render_eq (hshell op hop)

/-- Assumes: no raw commands. Rendered texts say what the operations say just when each of them is
refused or has bare names. -/
theorem rendersAsIntended_iff (around : Surroundings) (ops : List UciOp)
    (hshell : ∀ op ∈ ops, ∀ command, op ≠ .shell command) :
    RendersAsIntended around ops ↔
      ∀ command ∈ ops.flatMap UciOp.commands, command.IsPlain around := by
  rw [RendersAsIntended, renderShell_eq hshell, List.forall₂_map_left_iff, List.forall₂_same]
  exact forall₂_congr fun command _ ↦ RenderedCommand.says_text_iff around command

/-- A shell that refuses nothing, where no pattern stands for anything. -/
def plainSurroundings : Surroundings where
  refuses _ := False
  stands _ := False

theorem not_replaces_plain (word : Word) : ¬ plainSurroundings.Replaces word :=
  fun hreplaces ↦ hreplaces.2

/-- The name of a network that would run a command, as a value. -/
def hostileNetwork : List UciOp :=
  [.set "wireless" "sta_radio0" [("ssid", .single "x'; reboot; $(reboot)")], .commit "wireless"]

theorem rendersAsIntended_of_hostileNetwork :
    RendersAsIntended plainSurroundings hostileNetwork := by
  refine (rendersAsIntended_iff plainSurroundings hostileNetwork (by simp [hostileNetwork])).mpr ?_
  intro command hcommand
  have hcases : command = .assign .set "wireless.sta_radio0.ssid" "x'; reboot; $(reboot)" ∨
      command = .onPath .commit "wireless" false := by
    simpa [hostileNetwork, UciOp.commands, setCommands] using hcommand
  rcases hcases with rfl | rfl
  · have hbare : isBareWord false "wireless.sta_radio0.ssid".toList = true := by decide
    exact Or.inr ⟨hbare, fun word _ ↦ not_replaces_plain word⟩
  · have hbare : isBareWord false "wireless".toList = true := by decide
    exact Or.inr ⟨⟨by decide, hbare⟩, fun word _ ↦ not_replaces_plain word⟩

example : commandNames "uci commit wireless; reboot".toList = ["uci".toList, "reboot".toList] := by
  decide

/-- The name of a configuration runs a command. -/
theorem configuration_runs_command :
    ¬ RendersAsIntended plainSurroundings [.commit "wireless; reboot"] := by
  intro hintended
  have hrender : renderShell [.commit "wireless; reboot"] =
      [(RenderedCommand.onPath .commit "wireless; reboot" false).text] := by decide
  rw [RendersAsIntended, hrender] at hintended
  have hplain := (RenderedCommand.says_text_iff plainSurroundings _).mp
    (List.forall₂_cons.mp hintended).1
  rcases hplain with (hnul | hrefused) | ⟨⟨_, hbare⟩, _⟩
  · exact absurd hnul (by decide)
  · exact hrefused
  · exact absurd hbare (by decide)

end Tollgate
