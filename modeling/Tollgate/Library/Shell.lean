import Tollgate.Library.Transducer

/-!
# How a shell reads a command

The reading has two stages, as the standard describes it for `sh`. The lexer walks over the
characters and marks each one: as part of a word, quoted or not, as a blank, as an operator, or as
the start of an expansion. Its state holds the quotations and substitutions it is inside of. The
reader then groups marks into words and words into simple commands, inner substitutions first.

Pathname expansion, here-documents and backquotes inside backquotes are not followed.

`Reads` composes the reading of a text from that of its parts, so a command with arbitrary text in
one place is read by reading that text once: `reads_bare` for plain characters, `reads_quote` for
text in single quotes, and `reads_inert_iff` for text between double quotes.
-/

set_option autoImplicit false
set_option relaxedAutoImplicit false

namespace Shell

/-! ### The lexer -/

/-- What the shell makes of a character. A quotation mark leaves a mark of its own, for it starts a
word even when nothing is quoted. -/
inductive Mark
  | bare (character : Char)
  | quoted (character : Char)
  | quote
  | blank
  | operator (character : Char)
  | expansion
  | opens
  | closes
  deriving DecidableEq, Repr

/-- What ends a stretch of commands. -/
inductive Ending
  | text
  | parenthesis
  | backquote
  | group
  deriving DecidableEq, Repr

/-- What the lexer is inside of. -/
inductive Context
  | command (inWord : Bool) (ending : Ending)
  | single
  | double
  | braces
  | comment
  deriving DecidableEq, Repr

/-- What the character before leaves open. -/
inductive Pending
  | nothing
  | escape
  | dollar
  | name
  deriving DecidableEq, Repr

/-- The state of the lexer, with the contexts around the present one. -/
structure Scan where
  pending : Pending
  context : Context
  outer : List Context
  deriving DecidableEq, Repr

/-- In a context with a word begun, where it has words. -/
def Context.word : Context → Context
  | .command _ ending => .command true ending
  | other => other

namespace Scan

/-- At the start of a text. -/
def start : Scan := ⟨.nothing, .command false .text, []⟩

/-- Into another context. -/
def enter (scan : Scan) (context : Context) : Scan :=
  ⟨.nothing, context, scan.context.word :: scan.outer⟩

/-- Back to the context around the present one. -/
def leave (scan : Scan) : Scan :=
  match scan.outer with
  | [] => ⟨.nothing, scan.context, []⟩
  | context :: outer => ⟨.nothing, context, outer⟩

/-- On in the present context, with something left open. -/
def await (scan : Scan) (pending : Pending) : Scan :=
  ⟨pending, scan.context.word, scan.outer⟩

/-- On in the present context, between words. -/
def between (scan : Scan) (ending : Ending) : Scan :=
  ⟨.nothing, .command false ending, scan.outer⟩

end Scan

/-- A character that may start the name of a parameter. -/
def isNameStart (character : Char) : Bool := character.isAlpha || character = '_'

/-- A parameter named by one character. -/
def isSpecialParameter (character : Char) : Bool :=
  character.isDigit || ['@', '*', '#', '?', '-', '$', '!'].contains character

/-- What makes a dollar sign in front of it an expansion. -/
def startsExpansion (character : Char) : Bool :=
  isNameStart character || isSpecialParameter character || character = '(' || character = '{'

/-- What a backslash takes the meaning of inside double quotes. -/
def isEscapable (character : Char) : Bool :=
  ['$', '`', '"', '\\', '\n'].contains character

/-- A character outside of quotations. -/
def lexCommand (scan : Scan) (inWord : Bool) (ending : Ending) (character : Char) :
    Scan × List Mark :=
  match character with
  | '\'' => (scan.enter .single, [.quote])
  | '"' => (scan.enter .double, [.quote])
  | '\\' => (scan.await .escape, [])
  | '$' => (scan.await .dollar, [])
  | '`' =>
    if ending = .backquote then (scan.leave, [.closes])
    else (scan.enter (.command false .backquote), [.opens])
  | '(' => (scan.enter (.command false .group), [.operator '('])
  | ')' =>
    match ending with
    | .parenthesis => (scan.leave, [.closes])
    | .group => (scan.leave, [.operator ')'])
    | .text | .backquote => (scan.between ending, [.operator ')'])
  | ' ' | '\t' => (scan.between ending, [.blank])
  | '\n' | ';' | '|' | '&' | '<' | '>' => (scan.between ending, [.operator character])
  | '#' =>
    if inWord then (scan.await .nothing, [.bare '#']) else (scan.enter .comment, [])
  | _ => (scan.await .nothing, [.bare character])

/-- A character between double quotes. -/
def lexDouble (scan : Scan) (character : Char) : Scan × List Mark :=
  match character with
  | '"' => (scan.leave, [.quote])
  | '\\' => (scan.await .escape, [])
  | '$' => (scan.await .dollar, [])
  | '`' => (scan.enter (.command false .backquote), [.opens])
  | _ => (scan.await .nothing, [.quoted character])

/-- A character inside the braces of a parameter expansion. -/
def lexBraces (scan : Scan) (character : Char) : Scan × List Mark :=
  match character with
  | '}' => (scan.leave, [])
  | '\'' => (scan.enter .single, [])
  | '"' => (scan.enter .double, [])
  | '\\' => (scan.await .escape, [])
  | '$' => (scan.await .dollar, [])
  | '`' => (scan.enter (.command false .backquote), [.opens])
  | _ => (scan, [])

/-- A character with nothing left open in front of it. -/
def lexPlain (scan : Scan) (character : Char) : Scan × List Mark :=
  match scan.context with
  | .command inWord ending => lexCommand scan inWord ending character
  | .single =>
    if character = '\'' then (scan.leave, [.quote]) else (scan.await .nothing, [.quoted character])
  | .double => lexDouble scan character
  | .braces => lexBraces scan character
  | .comment =>
    if character = '\n' then (scan.leave, [.operator '\n']) else (scan, [])

/-- A dollar sign that starts nothing stands for itself. -/
def dollarSign (context : Context) : Mark :=
  match context with
  | .command _ _ => .bare '$'
  | .single | .double | .braces | .comment => .quoted '$'

/-- One character. -/
def lexStep (scan : Scan) (character : Char) : Scan × List Mark :=
  match scan.pending with
  | .nothing => lexPlain scan character
  | .escape =>
    if character = '\n' then (scan.await .nothing, [])
    else if scan.context = .double ∧ isEscapable character = false then
      (scan.await .nothing, [.quoted '\\', .quoted character])
    else (scan.await .nothing, [.quoted character])
  | .dollar =>
    if character = '(' then (scan.enter (.command false .parenthesis), [.opens])
    else if character = '\x7b' then (scan.enter .braces, [.expansion])
    else if isNameStart character then (scan.await .name, [.expansion])
    else if isSpecialParameter character then (scan.await .nothing, [.expansion])
    else
      ((lexPlain (scan.await .nothing) character).1,
        dollarSign scan.context :: (lexPlain (scan.await .nothing) character).2)
  | .name =>
    if character.isAlphanum || character = '_' then (scan, [])
    else lexPlain (scan.await .nothing) character

/-- The lexer as a machine. -/
def lexer : Transducer Scan Char Mark where
  step := lexStep

/-- The marks of a whole text. Its end ends the last command, as a newline does. -/
def marks (text : List Char) : List Mark := lexer.outputs .start (text ++ ['\n'])

/-! ### The reader -/

/-- A word: the marks of its characters in order. -/
abbrev Word := List Mark

/-- The characters of a word, without what expansions put into it. -/
def Word.text (word : Word) : List Char :=
  word.filterMap fun mark ↦
    match mark with
    | .bare character | .quoted character => some character
    | .quote | .blank | .operator _ | .expansion | .opens | .closes => none

/-- A run of words up to the operator that ends it. -/
structure Segment where
  words : List Word
  ended : Char
  deriving DecidableEq, Repr

/-- The words read so far on one level of substitution. `target` says that the next word names the
file of a redirection. -/
structure Level where
  word : Option Word
  words : List Word
  target : Bool
  deriving DecidableEq, Repr

namespace Level

/-- Nothing read yet. -/
def empty : Level := ⟨none, [], false⟩

/-- The present word goes on. -/
def extend (level : Level) (mark : Mark) : Level :=
  { level with word := some (level.word.getD [] ++ [mark]) }

/-- The present word is over. -/
def finishWord (level : Level) : Level :=
  match level.word with
  | none => level
  | some word =>
    if level.target then ⟨none, level.words, false⟩ else ⟨none, level.words ++ [word], false⟩

/-- A redirection. Digits right in front of it name the stream, and are no argument. -/
def redirect (level : Level) : Level :=
  if (level.word.getD []).all (fun mark ↦
      match mark with
      | .bare character => character.isDigit
      | _ => false) then ⟨none, level.words, true⟩
  else { level.finishWord with target := true }

end Level

/-- The state of the reader, with the levels around the present one. -/
structure Reading where
  level : Level
  outer : List Level
  deriving DecidableEq, Repr

/-- One mark. -/
def readStep (reading : Reading) (mark : Mark) : Reading × List Segment :=
  match mark with
  | .blank => ({ reading with level := reading.level.finishWord }, [])
  | .operator character =>
    if character = '<' ∨ character = '>' then ({ reading with level := reading.level.redirect }, [])
    else ({ reading with level := .empty }, [⟨reading.level.finishWord.words, character⟩])
  | .opens => (⟨.empty, reading.level.extend .opens :: reading.outer⟩, [])
  | .closes =>
    match reading.outer with
    | [] => (reading, [])
    | level :: outer => (⟨level, outer⟩, [⟨reading.level.finishWord.words, ')'⟩])
  | .bare _ | .quoted _ | .quote | .expansion =>
    ({ reading with level := reading.level.extend mark }, [])

/-- The reader as a machine. -/
def reader : Transducer Reading Mark Segment where
  step := readStep

/-- The segments of a whole text. -/
def segments (text : List Char) : List Segment := reader.outputs ⟨.empty, []⟩ (marks text)

/-- The words that stand in front of a command without being one. -/
def reserved : List Word :=
  ["do", "done", "if", "then", "elif", "else", "fi", "while", "until", "!"].map fun word ↦
    word.toList.map Mark.bare

/-- The name of the simple command of a segment. The head of a loop runs nothing by itself. -/
def Segment.name? (segment : Segment) : Option (List Char) :=
  match segment.words.dropWhile (reserved.contains ·) with
  | [] => none
  | word :: _ => if word = "for".toList.map Mark.bare then none else some (Word.text word)

/-- The simple commands a text runs, by name. -/
def commandNames (text : List Char) : List (List Char) :=
  (segments text).filterMap Segment.name?

/-! ### Reading a text in parts -/

/-- From one state of the lexer to another, with the marks in between. -/
structure Reads (before : Scan) (text : List Char) (marked : List Mark) (after : Scan) : Prop where
  outputs : lexer.outputs before text = marked
  final : lexer.final before text = after

instance decidableReads (before : Scan) (text : List Char) (marked : List Mark) (after : Scan) :
    Decidable (Reads before text marked after) :=
  decidable_of_iff (lexer.outputs before text = marked ∧ lexer.final before text = after)
    ⟨fun h ↦ ⟨h.1, h.2⟩, fun h ↦ ⟨h.outputs, h.final⟩⟩

theorem Reads.nil (scan : Scan) : Reads scan [] [] scan := ⟨rfl, rfl⟩

theorem Reads.append {before middle after : Scan} {first second : List Char}
    {firstMarked secondMarked : List Mark} (hfirst : Reads before first firstMarked middle)
    (hsecond : Reads middle second secondMarked after) :
    Reads before (first ++ second) (firstMarked ++ secondMarked) after := by
  constructor
  · rw [Transducer.outputs_append, hfirst.outputs, hfirst.final, hsecond.outputs]
  · rw [Transducer.final_append, hfirst.final, hsecond.final]

theorem Reads.cons {before middle after : Scan} {character : Char} {rest : List Char}
    {first marked : List Mark} (hstep : lexStep before character = (middle, first))
    (hrest : Reads middle rest marked after) :
    Reads before (character :: rest) (first ++ marked) after := by
  have hfirst : Reads before [character] first middle := by
    constructor
    · show (lexStep before character).2 ++ [] = first
      rw [hstep, List.append_nil]
    · show (lexStep before character).1 = middle
      rw [hstep]
  exact hfirst.append hrest

/-- The characters with a meaning of their own outside of quotations. -/
def special : List Char :=
  ['\'', '"', '\\', '$', '`', '(', ')', ' ', '\t', '\n', ';', '|', '&', '<', '>', '#']

/-- A character without such a meaning. -/
def isPlain (character : Char) : Bool := !special.contains character

/-- In the middle of a word, outside of quotations. -/
def Scan.inWord (ending : Ending) (outer : List Context) : Scan :=
  ⟨.nothing, .command true ending, outer⟩

theorem lexCommand_of_isPlain {character : Char} (hplain : isPlain character = true) (scan : Scan)
    (inWord : Bool) (ending : Ending) :
    lexCommand scan inWord ending character = (scan.await .nothing, [.bare character]) := by
  unfold lexCommand
  split <;> first | rfl | exact absurd hplain (by decide)

/-- Plain characters are read as they stand. -/
theorem reads_bare {text : List Char} (hplain : ∀ character ∈ text, isPlain character = true)
    (ending : Ending) (outer : List Context) :
    Reads (.inWord ending outer) text (text.map .bare) (.inWord ending outer) := by
  induction text with
  | nil => exact Reads.nil _
  | cons character rest ih =>
    have hhead := hplain character List.mem_cons_self
    have hrest := ih fun next hnext ↦ hplain next (List.mem_cons_of_mem _ hnext)
    have hstep : lexStep (.inWord ending outer) character =
        (.inWord ending outer, [.bare character]) := lexCommand_of_isPlain hhead _ true ending
    exact Reads.cons hstep hrest

/-- A plain character begins a word. -/
theorem reads_bare_start {character : Char} {rest : List Char}
    (hplain : ∀ next ∈ character :: rest, isPlain next = true) (ending : Ending)
    (outer : List Context) :
    Reads ⟨.nothing, .command false ending, outer⟩ (character :: rest)
      ((character :: rest).map .bare) (.inWord ending outer) := by
  have hhead := hplain character List.mem_cons_self
  have hrest :=
    reads_bare (fun next hnext ↦ hplain next (List.mem_cons_of_mem _ hnext)) ending outer
  have hstep : lexStep ⟨.nothing, .command false ending, outer⟩ character =
      (.inWord ending outer, [.bare character]) := lexCommand_of_isPlain hhead _ false ending
  exact Reads.cons hstep hrest

/-! ### Single quotes -/

/-- A character inside single quotes; a single quote ends the quotation, stands escaped, and starts
the next one. -/
def escapeQuote (character : Char) : List Char :=
  if character = '\'' then "'\\''".toList else [character]

/-- Text in single quotes. -/
def quote (text : List Char) : List Char := '\'' :: (text.flatMap escapeQuote ++ ['\''])

/-- How text in single quotes is marked. -/
def quoteMarks (text : List Char) : List Mark :=
  .quote :: (text.flatMap (fun character ↦
    if character = '\'' then [.quote, .quoted character, .quote] else [.quoted character]) ++
      [.quote])

theorem reads_escapeQuote (character : Char) (ending : Ending) (outer : List Context) :
    Reads ⟨.nothing, .single, .command true ending :: outer⟩ (escapeQuote character)
      (if character = '\'' then [.quote, .quoted character, .quote] else [.quoted character])
      ⟨.nothing, .single, .command true ending :: outer⟩ := by
  unfold escapeQuote
  split
  · next hquote =>
    subst hquote
    exact ⟨rfl, rfl⟩
  · next hother =>
    have hstep : lexStep ⟨.nothing, .single, .command true ending :: outer⟩ character =
        (⟨.nothing, .single, .command true ending :: outer⟩, [.quoted character]) := if_neg hother
    exact Reads.cons hstep (Reads.nil _)

/-- Whatever is put in single quotes is read as itself. -/
theorem reads_quote (text : List Char) (inWord : Bool) (ending : Ending) (outer : List Context) :
    Reads ⟨.nothing, .command inWord ending, outer⟩ (quote text) (quoteMarks text)
      (.inWord ending outer) := by
  have hinside : Reads ⟨.nothing, .single, .command true ending :: outer⟩
      (text.flatMap escapeQuote)
      (text.flatMap fun character ↦
        if character = '\'' then [.quote, .quoted character, .quote] else [.quoted character])
      ⟨.nothing, .single, .command true ending :: outer⟩ := by
    induction text with
    | nil => exact Reads.nil _
    | cons character rest ih => exact (reads_escapeQuote character ending outer).append ih
  have hclose : Reads ⟨.nothing, .single, .command true ending :: outer⟩ ['\''] [.quote]
      (.inWord ending outer) := ⟨rfl, rfl⟩
  have hopen : lexStep ⟨.nothing, .command inWord ending, outer⟩ '\'' =
      (⟨.nothing, .single, .command true ending :: outer⟩, [.quote]) := rfl
  exact Reads.cons hopen (hinside.append hclose)

/-- The characters of quoted text are those of the text. -/
theorem text_quoteMarks (text : List Char) : Word.text (quoteMarks text) = text := by
  have hinside : Word.text (text.flatMap fun character ↦
      if character = '\'' then [.quote, .quoted character, .quote] else [.quoted character]) =
        text := by
    induction text with
    | nil => rfl
    | cons character rest ih =>
      rw [List.flatMap_cons, Word.text, List.filterMap_append]
      rw [Word.text] at ih
      rw [ih]
      split <;> rfl
  rw [Word.text] at hinside
  rw [quoteMarks, Word.text, List.filterMap_cons, List.filterMap_append, hinside]
  simp

theorem text_map_bare (text : List Char) : Word.text (text.map .bare) = text := by
  rw [Word.text, List.filterMap_map]
  exact List.filterMap_some

/-! ### Words separated by blanks -/

/-- A mark inside a word. -/
def Mark.isInWord : Mark → Bool
  | .bare _ | .quoted _ | .quote | .expansion => true
  | .blank | .operator _ | .opens | .closes => false

/-- A mark of a character that stands for itself, or of a quotation. -/
def Mark.isLiteral : Mark → Bool
  | .bare _ | .quoted _ | .quote => true
  | .blank | .operator _ | .expansion | .opens | .closes => false

theorem Mark.isInWord_of_isLiteral {mark : Mark} (hliteral : mark.isLiteral = true) :
    mark.isInWord = true := by
  cases mark with
  | bare character => rfl
  | quoted character => rfl
  | quote => rfl
  | expansion => rfl
  | blank => exact hliteral
  | operator character => exact hliteral
  | opens => exact hliteral
  | closes => exact hliteral

theorem isLiteral_of_mem_map_bare {text : List Char} {mark : Mark}
    (hmark : mark ∈ text.map Mark.bare) : mark.isLiteral = true := by
  obtain ⟨character, -, rfl⟩ := List.mem_map.mp hmark
  rfl

theorem isLiteral_of_mem_quoteMarks {text : List Char} {mark : Mark}
    (hmark : mark ∈ quoteMarks text) : mark.isLiteral = true := by
  rw [quoteMarks, List.mem_cons, List.mem_append, List.mem_singleton, List.mem_flatMap] at hmark
  rcases hmark with rfl | ⟨character, -, hmark⟩ | rfl
  · rfl
  · split at hmark
    · simp only [List.mem_cons, List.not_mem_nil, or_false] at hmark
      rcases hmark with rfl | rfl | rfl <;> rfl
    · rw [List.mem_singleton] at hmark
      rw [hmark]
      rfl
  · rfl

/-- Nothing in single quotes is bare. -/
theorem bare_notMem_quoteMarks (text : List Char) (character : Char) :
    .bare character ∉ quoteMarks text := by
  rw [quoteMarks, List.mem_cons, List.mem_append, List.mem_singleton, List.mem_flatMap]
  rintro (hopen | ⟨other, -, hmark⟩ | hclose)
  · cases hopen
  · split at hmark
    · simp at hmark
    · simp at hmark
  · cases hclose

/-- Marks inside a word make it longer, and nothing else. -/
theorem read_word {word : Word} (hword : word ≠ []) (hmarks : ∀ mark ∈ word, mark.isInWord = true)
    (reading : Reading) :
    reader.outputs reading word = [] ∧
      reader.final reading word =
        { reading with
          level := { reading.level with word := some (reading.level.word.getD [] ++ word) } } := by
  induction word generalizing reading with
  | nil => exact absurd rfl hword
  | cons mark rest ih =>
    have hstep :
        readStep reading mark = ({ reading with level := reading.level.extend mark }, []) := by
      have hmark := hmarks mark List.mem_cons_self
      cases mark with
      | bare character => rfl
      | quoted character => rfl
      | quote => rfl
      | expansion => rfl
      | blank => exact absurd hmark (by decide)
      | operator character => exact absurd hmark (by simp [Mark.isInWord])
      | opens => exact absurd hmark (by decide)
      | closes => exact absurd hmark (by decide)
    have houtputs : reader.outputs reading (mark :: rest) =
        reader.outputs { reading with level := reading.level.extend mark } rest := by
      rw [Transducer.outputs_cons]
      show (readStep reading mark).2 ++ reader.outputs (readStep reading mark).1 rest = _
      rw [hstep, List.nil_append]
    have hfinal : reader.final reading (mark :: rest) =
        reader.final { reading with level := reading.level.extend mark } rest := by
      rw [Transducer.final_cons]
      show reader.final (readStep reading mark).1 rest = _
      rw [hstep]
    rw [houtputs, hfinal]
    by_cases hrest : rest = []
    · subst hrest
      exact ⟨rfl, rfl⟩
    · have hnext := ih hrest (fun next hnext ↦ hmarks next (List.mem_cons_of_mem _ hnext))
        { reading with level := reading.level.extend mark }
      refine ⟨hnext.1, ?_⟩
      rw [hnext.2]
      simp [Level.extend]

/-- A stretch of text that is read as one word, with nothing in it to be expanded. -/
structure Writes (text : List Char) (word : Word) : Prop where
  reads : Reads .start text word (.inWord .text [])
  literal : ∀ mark ∈ word, mark.isLiteral = true
  nonempty : word ≠ []

theorem Writes.marks {text : List Char} {word : Word} (hwrites : Writes text word) :
    ∀ mark ∈ word, mark.isInWord = true :=
  fun mark hmark ↦ Mark.isInWord_of_isLiteral (hwrites.literal mark hmark)

/-- Plain characters are a word. -/
theorem writes_bare {text : List Char} (hnonempty : text ≠ [])
    (hplain : ∀ character ∈ text, isPlain character = true) : Writes text (text.map .bare) := by
  obtain ⟨character, rest, rfl⟩ := List.exists_cons_of_ne_nil hnonempty
  exact ⟨reads_bare_start hplain .text [], fun mark hmark ↦ isLiteral_of_mem_map_bare hmark,
    by simp⟩

/-- Plain characters and text in single quotes behind them are one word, whatever is in the
quotes. -/
theorem writes_quoted {front : List Char}
    (hplain : ∀ character ∈ front, isPlain character = true) (text : List Char) :
    Writes (front ++ quote text) (front.map .bare ++ quoteMarks text) := by
  refine ⟨?_, fun mark hmark ↦ ?_, by simp [quoteMarks]⟩
  · cases front with
    | nil => exact reads_quote text false .text []
    | cons character rest =>
      exact (reads_bare_start hplain .text []).append (reads_quote text true .text [])
  · rcases List.mem_append.mp hmark with hfront | hquoted
    · exact isLiteral_of_mem_map_bare hfront
    · exact isLiteral_of_mem_quoteMarks hquoted

/-- A text read so far, with the words it has begun or ended. -/
structure Taken (text : List Char) (level : Level) : Prop where
  scan : lexer.final .start text = .inWord .text []
  silent : reader.outputs ⟨.empty, []⟩ (lexer.outputs .start text) = []
  reading : reader.final ⟨.empty, []⟩ (lexer.outputs .start text) = ⟨level, []⟩

theorem Writes.taken {text : List Char} {word : Word} (hwrites : Writes text word) :
    Taken text ⟨some word, [], false⟩ := by
  have hread := read_word hwrites.nonempty hwrites.marks ⟨.empty, []⟩
  refine ⟨hwrites.reads.final, ?_, ?_⟩
  · rw [hwrites.reads.outputs]
    exact hread.1
  · rw [hwrites.reads.outputs, hread.2]
    rfl

/-- The next word after a blank. -/
theorem Taken.append_word {text : List Char} {last : Word} {words : List Word}
    (htaken : Taken text ⟨some last, words, false⟩) {next : List Char} {word : Word}
    (hwrites : Writes next word) :
    Taken (text ++ ' ' :: next) ⟨some word, words ++ [last], false⟩ := by
  have hmarks : lexer.outputs .start (text ++ ' ' :: next) =
      lexer.outputs .start text ++ .blank :: word := by
    rw [Transducer.outputs_append, htaken.scan, ← hwrites.reads.outputs]
    rfl
  have hread := read_word hwrites.nonempty hwrites.marks ⟨⟨none, words ++ [last], false⟩, []⟩
  refine ⟨?_, ?_, ?_⟩
  · rw [Transducer.final_append, htaken.scan]
    exact hwrites.reads.final
  · rw [hmarks, Transducer.outputs_append, htaken.silent, htaken.reading]
    exact hread.1
  · rw [hmarks, Transducer.final_append, htaken.reading]
    exact hread.2

/-- The next words, each of plain characters after a blank. -/
theorem Taken.append_plain {text : List Char} {last : Word} {words : List Word}
    (htaken : Taken text ⟨some last, words, false⟩) {arguments : List (List Char)}
    (hplain : ∀ argument ∈ arguments,
      argument ≠ [] ∧ ∀ character ∈ argument, isPlain character = true) :
    ∃ last' words', Taken (text ++ arguments.flatMap (' ' :: ·)) ⟨some last', words', false⟩ ∧
      words' ++ [last'] = words ++ [last] ++ arguments.map (·.map Mark.bare) := by
  induction arguments generalizing text last words with
  | nil => exact ⟨last, words, by simpa using htaken, by simp⟩
  | cons argument rest ih =>
    obtain ⟨hnonempty, hcharacters⟩ := hplain argument List.mem_cons_self
    have hnext := htaken.append_word (writes_bare hnonempty hcharacters)
    obtain ⟨last', words', htaken', hwords⟩ := ih hnext fun other hother ↦
      hplain other (List.mem_cons_of_mem _ hother)
    refine ⟨last', words', ?_, ?_⟩
    · simpa using htaken'
    · rw [hwords]
      simp

/-- What a text read so far and the rest of it make together. -/
theorem Taken.segments_append {text : List Char} {level : Level} (htaken : Taken text level)
    (rest : List Char) :
    segments (text ++ rest) =
      reader.outputs ⟨level, []⟩ (lexer.outputs (.inWord .text []) (rest ++ ['\n'])) := by
  rw [segments, marks, List.append_assoc, Transducer.outputs_append, htaken.scan,
    Transducer.outputs_append, htaken.silent, htaken.reading, List.nil_append]

/-- Words alone are one simple command. -/
theorem Taken.segments_eq {text : List Char} {last : Word} {words : List Word}
    (htaken : Taken text ⟨some last, words, false⟩) :
    segments text = [⟨words ++ [last], '\n'⟩] := by
  have happend := htaken.segments_append []
  rw [List.append_nil] at happend
  rw [happend]
  rfl

/-! ### Double quotes -/

/-- Between double quotes. -/
def Scan.inDouble (outer : List Context) : Scan := ⟨.nothing, .double, outer⟩

/-- Nothing in the text has a meaning between double quotes. -/
def inert : List Char → Bool
  | [] => true
  | character :: rest =>
    character != '"' && character != '`' &&
      !(character == '$' && rest.head?.any startsExpansion) &&
      !(character == '\\' && rest.head?.any isEscapable) && inert rest

/-- What may still be emitted for the characters left open. -/
def Pending.credit : Pending → ℕ
  | .escape | .dollar => 1
  | .nothing | .name => 0

@[simp] theorem pending_enter (scan : Scan) (context : Context) :
    (scan.enter context).pending = .nothing := rfl

@[simp] theorem pending_leave (scan : Scan) : scan.leave.pending = .nothing := by
  unfold Scan.leave
  split <;> rfl

@[simp] theorem pending_await (scan : Scan) (pending : Pending) :
    (scan.await pending).pending = pending := rfl

@[simp] theorem pending_between (scan : Scan) (ending : Ending) :
    (scan.between ending).pending = .nothing := rfl

/-- A character with nothing open in front of it is marked at most once, now or later. -/
theorem lexPlain_length {scan : Scan} (hnothing : scan.pending = .nothing) (character : Char) :
    (lexPlain scan character).2.length + (lexPlain scan character).1.pending.credit ≤ 1 := by
  unfold lexPlain
  split
  · unfold lexCommand
    split <;> first | (split <;> simp [Pending.credit]) | simp [Pending.credit]
  · split <;> simp [Pending.credit]
  · unfold lexDouble
    split <;> simp [Pending.credit]
  · unfold lexBraces
    split <;> simp [Pending.credit, hnothing]
  · split <;> simp [Pending.credit, hnothing]

/-- Every character is marked at most once, now or later. -/
theorem lexStep_length (scan : Scan) (character : Char) :
    (lexStep scan character).2.length + (lexStep scan character).1.pending.credit ≤
      1 + scan.pending.credit := by
  have hplain : (lexPlain (scan.await .nothing) character).2.length +
      (lexPlain (scan.await .nothing) character).1.pending.credit ≤ 1 :=
    lexPlain_length rfl character
  unfold lexStep
  split
  · next hpending => exact (lexPlain_length hpending character).trans (Nat.le_add_right _ _)
  · next hpending => split_ifs <;> simp [Pending.credit, hpending]
  · next hpending =>
    rw [hpending]
    split_ifs
    · simp [Pending.credit]
    · simp [Pending.credit]
    · simp [Pending.credit]
    · simp [Pending.credit]
    · have hdollar : Pending.credit .dollar = 1 := rfl
      rw [List.length_cons, hdollar]
      show _ + 1 + (lexPlain (scan.await .nothing) character).1.pending.credit ≤ _
      omega
  · next hpending =>
    split_ifs
    · simp [Pending.credit, hpending]
    · exact hplain.trans (Nat.le_add_right _ _)

theorem outputs_length_le (scan : Scan) (text : List Char) :
    (lexer.outputs scan text).length ≤ text.length + scan.pending.credit := by
  induction text generalizing scan with
  | nil => exact Nat.zero_le _
  | cons character rest ih =>
    have hstep := lexStep_length scan character
    have hrest := ih (lexStep scan character).1
    rw [Transducer.outputs_cons, List.length_append, List.length_cons]
    show (lexStep scan character).2.length +
      (lexer.outputs (lexStep scan character).1 rest).length ≤ _
    omega

/-- A dollar sign in front of what starts no expansion is read as itself. -/
theorem lexer_dollar {character : Char} (hstarts : startsExpansion character = false)
    (outer : List Context) (rest : List Char) :
    lexer.outputs (.inDouble outer) ('$' :: character :: rest) =
        .quoted '$' :: lexer.outputs (.inDouble outer) (character :: rest) ∧
      lexer.final (.inDouble outer) ('$' :: character :: rest) =
        lexer.final (.inDouble outer) (character :: rest) := by
  have hstep : lexStep ((Scan.inDouble outer).await .dollar) character =
      ((lexPlain (.inDouble outer) character).1,
        .quoted '$' :: (lexPlain (.inDouble outer) character).2) := by
    simp only [startsExpansion, Bool.or_eq_false_iff, decide_eq_false_iff_not] at hstarts
    obtain ⟨⟨⟨hname, hspecial⟩, hparenthesis⟩, hbrace⟩ := hstarts
    simp [lexStep, hname, hspecial, hparenthesis, hbrace, Scan.await, Scan.inDouble, dollarSign,
      Context.word]
  constructor
  · show (lexStep ((Scan.inDouble outer).await .dollar) character).2 ++
      lexer.outputs (lexStep ((Scan.inDouble outer).await .dollar) character).1 rest = _
    rw [hstep]
    rfl
  · show lexer.final (lexStep ((Scan.inDouble outer).await .dollar) character).1 rest = _
    rw [hstep]
    rfl

/-- A character without a meaning between double quotes is read as itself. -/
theorem lexDouble_of_ne {character : Char} (hquote : character ≠ '"') (hback : character ≠ '\\')
    (hdollar : character ≠ '$') (htick : character ≠ '`') (outer : List Context) :
    lexStep (.inDouble outer) character = (.inDouble outer, [.quoted character]) := by
  show lexDouble (.inDouble outer) character = _
  unfold lexDouble
  split
  · exact absurd rfl hquote
  · exact absurd rfl hback
  · exact absurd rfl hdollar
  · exact absurd rfl htick
  · rfl

/-- So is a backslash in front of such a character. -/
theorem lexer_backslash {character : Char} (hescapable : isEscapable character = false)
    (outer : List Context) (rest : List Char) :
    lexer.outputs (.inDouble outer) ('\\' :: character :: rest) =
        .quoted '\\' :: lexer.outputs (.inDouble outer) (character :: rest) ∧
      lexer.final (.inDouble outer) ('\\' :: character :: rest) =
        lexer.final (.inDouble outer) (character :: rest) := by
  have hothers : ∀ other ∈ ['$', '`', '"', '\\', '\n'], character ≠ other := by
    intro other hother heq
    rw [isEscapable, ← List.elem_eq_contains, ← Bool.not_eq_true, List.elem_iff, heq] at hescapable
    exact hescapable hother
  have hplain : lexStep (.inDouble outer) character = (.inDouble outer, [.quoted character]) :=
    lexDouble_of_ne (hothers _ (by decide)) (hothers _ (by decide)) (hothers _ (by decide))
      (hothers _ (by decide)) outer
  have hstep : lexStep ((Scan.inDouble outer).await .escape) character =
      (.inDouble outer, [.quoted '\\', .quoted character]) := by
    have hnewline : character ≠ '\n' := hothers _ (by decide)
    simp [lexStep, hnewline, hescapable, Scan.await, Scan.inDouble, Context.word]
  constructor
  · show (lexStep ((Scan.inDouble outer).await .escape) character).2 ++
      lexer.outputs (lexStep ((Scan.inDouble outer).await .escape) character).1 rest =
        .quoted '\\' :: ((lexStep (.inDouble outer) character).2 ++
          lexer.outputs (lexStep (.inDouble outer) character).1 rest)
    rw [hstep, hplain]
    rfl
  · show lexer.final (lexStep ((Scan.inDouble outer).await .escape) character).1 rest =
      lexer.final (lexStep (.inDouble outer) character).1 rest
    rw [hstep, hplain]

/-- A dollar sign in front of what starts an expansion is not read as itself. -/
theorem lexer_expands {character : Char} (hstarts : startsExpansion character = true)
    (outer : List Context) (rest : List Char) :
    ∃ mark others, (mark = .opens ∨ mark = .expansion) ∧
      lexer.outputs (.inDouble outer) ('$' :: character :: rest) = mark :: others := by
  have hstep : ∃ mark, (mark = .opens ∨ mark = .expansion) ∧
      (lexStep ((Scan.inDouble outer).await .dollar) character).2 = [mark] := by
    simp only [lexStep, pending_await]
    split_ifs with hparenthesis hbrace hname hspecial
    · exact ⟨.opens, .inl rfl, rfl⟩
    · exact ⟨.expansion, .inr rfl, rfl⟩
    · exact ⟨.expansion, .inr rfl, rfl⟩
    · exact ⟨.expansion, .inr rfl, rfl⟩
    · simp [startsExpansion, hparenthesis, hbrace, hname, hspecial] at hstarts
  obtain ⟨mark, hmark, hstep⟩ := hstep
  refine ⟨mark, lexer.outputs (lexStep ((Scan.inDouble outer).await .dollar) character).1 rest,
    hmark, ?_⟩
  show (lexStep ((Scan.inDouble outer).await .dollar) character).2 ++ _ = _
  rw [hstep]
  rfl

/-- A backslash that takes the meaning of the next character is lost. -/
theorem lexer_escapes {character : Char} (hescapable : isEscapable character = true)
    (outer : List Context) (rest : List Char) :
    (lexer.outputs (.inDouble outer) ('\\' :: character :: rest)).length ≤ 1 + rest.length := by
  have hstep : (lexStep ((Scan.inDouble outer).await .escape) character).2.length ≤ 1 ∧
      (lexStep ((Scan.inDouble outer).await .escape) character).1.pending = .nothing := by
    simp only [lexStep, pending_await]
    split_ifs with hnewline hkept
    · exact ⟨Nat.zero_le 1, rfl⟩
    · exact absurd hkept.2 (by simp [hescapable])
    · exact ⟨le_rfl, rfl⟩
  have hrest := outputs_length_le (lexStep ((Scan.inDouble outer).await .escape) character).1 rest
  rw [hstep.2] at hrest
  show ((lexStep ((Scan.inDouble outer).await .escape) character).2 ++
    lexer.outputs (lexStep ((Scan.inDouble outer).await .escape) character).1 rest).length ≤ _
  rw [List.length_append]
  exact Nat.add_le_add hstep.1 hrest

/-- Where the first character is read as itself, the text is if the rest of it is. -/
theorem reads_cons_iff {character : Char} {rest : List Char} {scan : Scan}
    (houtputs : lexer.outputs scan (character :: rest) =
      .quoted character :: lexer.outputs scan rest)
    (hfinal : lexer.final scan (character :: rest) = lexer.final scan rest) :
    Reads scan (character :: rest) ((character :: rest).map .quoted) scan ↔
      Reads scan rest (rest.map .quoted) scan := by
  constructor
  · intro hreads
    have hcons := hreads.outputs
    rw [houtputs, List.map_cons] at hcons
    exact ⟨(List.cons.inj hcons).2, by rw [← hfinal, hreads.final]⟩
  · intro hreads
    refine ⟨?_, by rw [hfinal, hreads.final]⟩
    rw [houtputs, hreads.outputs, List.map_cons]

/-- Where it is marked otherwise, the text is not. -/
theorem not_reads_of_head {character : Char} {rest : List Char} {scan after : Scan} {mark : Mark}
    {others : List Mark} (hmark : mark ≠ .quoted character)
    (houtputs : lexer.outputs scan (character :: rest) = mark :: others) :
    ¬ Reads scan (character :: rest) ((character :: rest).map .quoted) after := by
  intro hreads
  have hcons := hreads.outputs
  rw [houtputs, List.map_cons] at hcons
  exact hmark (List.cons.inj hcons).1

/-- Text between double quotes with a single quote behind it is read as it stands exactly if it is
inert. The single quote settles what a dollar sign or backslash at the end of the text does. -/
theorem reads_inert_iff (text : List Char) (outer : List Context) :
    Reads (.inDouble outer) (text ++ ['\'']) ((text ++ ['\'']).map .quoted) (.inDouble outer) ↔
      inert text = true := by
  induction text with
  | nil => exact ⟨fun _ ↦ rfl, fun _ ↦ ⟨rfl, rfl⟩⟩
  | cons character rest ih =>
    obtain ⟨next, more, htail⟩ : ∃ next more, rest ++ ['\''] = next :: more :=
      List.exists_cons_of_ne_nil (by simp)
    have hnext : ∀ test : Char → Bool, test '\'' = false → rest.head?.any test = test next := by
      intro test hquote
      cases rest with
      | nil =>
        have hlast : '\'' = next := (List.cons.inj htail).1
        rw [← hlast, hquote]
        rfl
      | cons first others =>
        have hfirst : first = next := (List.cons.inj htail).1
        rw [hfirst]
        rfl
    have hexpansion := hnext startsExpansion (by decide)
    have hescapable := hnext isEscapable (by decide)
    rw [List.cons_append, inert, hexpansion, hescapable]
    rw [htail] at ih ⊢
    by_cases hquote : character = '"'
    · subst hquote
      exact iff_of_false (not_reads_of_head (by decide : Mark.quote ≠ .quoted '"') rfl) (by simp)
    by_cases htick : character = '`'
    · subst htick
      exact iff_of_false (not_reads_of_head (by decide : Mark.opens ≠ .quoted '`') rfl) (by simp)
    by_cases hdollar : character = '$'
    · subst hdollar
      cases hstarts : startsExpansion next with
      | false =>
        rw [reads_cons_iff (lexer_dollar hstarts outer more).1 (lexer_dollar hstarts outer more).2,
          ih]
        simp
      | true =>
        obtain ⟨mark, others, hmark, houtputs⟩ := lexer_expands hstarts outer more
        refine iff_of_false (not_reads_of_head ?_ houtputs) (by simp)
        rcases hmark with rfl | rfl <;> decide
    by_cases hback : character = '\\'
    · subst hback
      cases hescapes : isEscapable next with
      | false =>
        rw [reads_cons_iff (lexer_backslash hescapes outer more).1
          (lexer_backslash hescapes outer more).2, ih]
        simp
      | true =>
        refine iff_of_false (fun hreads ↦ ?_) (by simp)
        have hlength := lexer_escapes hescapes outer more
        rw [hreads.outputs, List.length_map, List.length_cons, List.length_cons] at hlength
        omega
    have hstep := lexDouble_of_ne hquote hback hdollar htick outer
    have houtputs : lexer.outputs (.inDouble outer) (character :: next :: more) =
        .quoted character :: lexer.outputs (.inDouble outer) (next :: more) := by
      show (lexStep (.inDouble outer) character).2 ++
        lexer.outputs (lexStep (.inDouble outer) character).1 (next :: more) = _
      rw [hstep]
      rfl
    have hfinal : lexer.final (.inDouble outer) (character :: next :: more) =
        lexer.final (.inDouble outer) (next :: more) := by
      show lexer.final (lexStep (.inDouble outer) character).1 (next :: more) = _
      rw [hstep]
    rw [reads_cons_iff houtputs hfinal, ih]
    simp [hquote, htick, hdollar, hback]

/-! ### Running simple commands -/

/-- Runs segments one after the other: what follows `||` only after a failure, what follows `&&`
only after a success. `skip` says that the present one is left out. -/
def runSegments {State : Type*} (run : State → List (List Char) → State × Bool) :
    Bool → State → List Segment → State
  | _, state, [] => state
  | skip, state, segment :: ⟨[], ended⟩ :: rest =>
    let result := if skip then (state, true) else run state (segment.words.map Word.text)
    if segment.ended = '|' ∧ ended = '|' then runSegments run result.2 result.1 rest
    else if segment.ended = '&' ∧ ended = '&' then runSegments run (!result.2) result.1 rest
    else runSegments run false result.1 rest
  | skip, state, segment :: rest =>
    let result := if skip then (state, true) else run state (segment.words.map Word.text)
    runSegments run false result.1 rest

/-- Runs a text of simple commands without expansions. -/
def run {State : Type*} (run : State → List (List Char) → State × Bool) (state : State)
    (text : List Char) : State :=
  runSegments run false state (segments text)

/-- A text of words alone runs one command. -/
theorem Taken.run_eq {State : Type*} {text : List Char} {last : Word} {words : List Word}
    (htaken : Taken text ⟨some last, words, false⟩)
    (execute : State → List (List Char) → State × Bool) (state : State) :
    run execute state text = (execute state ((words ++ [last]).map Word.text)).1 := by
  rw [run, htaken.segments_eq]
  rfl

/-- A command whose messages are thrown away and whose failure is made a success. -/
theorem Taken.run_quiet {State : Type*} {text : List Char} {last : Word} {words : List Word}
    (htaken : Taken text ⟨some last, words, false⟩)
    {execute : State → List (List Char) → State × Bool}
    (htrue : ∀ state, (execute state ["true".toList]).1 = state) (state : State) :
    run execute state (text ++ " 2>/dev/null || true".toList) =
      (execute state ((words ++ [last]).map Word.text)).1 := by
  have hsegments : segments (text ++ " 2>/dev/null || true".toList) =
      [⟨words ++ [last], '|'⟩, ⟨[], '|'⟩, ⟨["true".toList.map .bare], '\n'⟩] := by
    rw [htaken.segments_append]
    rfl
  rw [run, hsegments]
  show runSegments execute (execute state ((words ++ [last]).map Word.text)).2
    (execute state ((words ++ [last]).map Word.text)).1 [⟨["true".toList.map .bare], '\n'⟩] = _
  cases (execute state ((words ++ [last]).map Word.text)).2 with
  | true => rfl
  | false => exact htrue _

end Shell
