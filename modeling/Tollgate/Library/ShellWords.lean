import Tollgate.Library.Shell

/-!
# Commands of literal words

When does a shell read an argument that was put into a command without quotes as it stands? `isBare`
says which texts it does (`outputs_bare`).

That it reads no other text so is an accounting of characters. Every character the reading shows is
one of the text, so none is shown more often than it comes in the text (`countP_shown_le`): a double
quote that quotes, a tab between words and the sign of a comment are lost. A single quote is shown
only by way of a backslash that is not (`count_quotes_le`). Text in single quotes pays for each of
its quotes with one backslash, and leaves none for an argument beside it.
-/

set_option autoImplicit false
set_option relaxedAutoImplicit false

namespace Shell

/-! ### What a reading shows -/

/-- The characters a mark stands for. -/
def Mark.shown : Mark → List Char
  | .bare character | .quoted character | .operator character => [character]
  | .blank => [' ']
  | .quote | .expansion | .opens | .closes => []

/-- The characters that marks stand for. -/
def shown (marked : List Mark) : List Char := marked.flatMap Mark.shown

/-- The character that is still to be shown. -/
def Pending.shown : Pending → List Char
  | .escape => ['\\']
  | .dollar => ['$']
  | .nothing | .name => []

@[simp] theorem shown_nil : shown [] = [] := rfl

@[simp] theorem shown_cons (mark : Mark) (rest : List Mark) :
    shown (mark :: rest) = mark.shown ++ shown rest := rfl

theorem shown_append (first second : List Mark) :
    shown (first ++ second) = shown first ++ shown second :=
  List.flatMap_append

section Count

variable {p : Char → Bool}

/-- Assumes: a blank counts for as much as a tab. A character with nothing open in front of it is
shown at most once, now or later. -/
theorem countP_lexPlain_le (hblank : p ' ' = true → p '\t' = true) {scan : Scan}
    (hnothing : scan.pending = .nothing) (character : Char) :
    (shown (lexPlain scan character).2).countP p +
        (lexPlain scan character).1.pending.shown.countP p ≤ [character].countP p := by
  unfold lexPlain
  split
  · unfold lexCommand
    split <;>
      first | (split <;> simp [Mark.shown, Pending.shown]) | simp [Mark.shown, Pending.shown]
    -- the one character that is shown as another is a tab
    by_cases hspace : p ' ' = true
    · rw [if_pos hspace, if_pos (hblank hspace)]
    · rw [if_neg hspace]
      exact Nat.zero_le _
  · split <;> simp [Mark.shown, Pending.shown]
  · unfold lexDouble
    split <;> simp [Mark.shown, Pending.shown]
  · unfold lexBraces
    split <;> simp [Mark.shown, Pending.shown, hnothing]
  · split_ifs with hnewline
    · simp [Mark.shown, Pending.shown, hnewline]
    · simp [Pending.shown, hnothing]

/-- Every character is shown at most once, now or later. -/
theorem countP_lexStep_le (hblank : p ' ' = true → p '\t' = true) (scan : Scan)
    (character : Char) :
    (shown (lexStep scan character).2).countP p +
        (lexStep scan character).1.pending.shown.countP p ≤
      [character].countP p + scan.pending.shown.countP p := by
  have hnothing : (scan.await .nothing).pending = .nothing := rfl
  have hplain := countP_lexPlain_le hblank hnothing character
  unfold lexStep
  split
  · next hpending =>
    exact (countP_lexPlain_le hblank hpending character).trans (Nat.le_add_right _ _)
  · next hpending =>
    rw [hpending]
    split_ifs
    · simp [Pending.shown]
    · simp only [shown_cons, shown_nil, Mark.shown, Pending.shown, pending_await,
        List.countP_append, List.countP_nil]
      omega
    · simp [Mark.shown, Pending.shown]
  · next hpending =>
    have hsign : (dollarSign scan.context).shown = ['$'] := by
      unfold dollarSign
      split <;> rfl
    rw [hpending]
    split_ifs
    · simp [Mark.shown, Pending.shown]
    · simp [Mark.shown, Pending.shown]
    · simp [Mark.shown, Pending.shown]
    · simp [Mark.shown, Pending.shown]
    · have hdollar : Pending.dollar.shown = ['$'] := rfl
      rw [shown_cons, hsign, List.countP_append, hdollar]
      show _ + _ + (lexPlain (scan.await .nothing) character).1.pending.shown.countP p ≤ _
      omega
  · next hpending =>
    split_ifs
    · simp [Pending.shown, hpending]
    · exact hplain.trans (Nat.le_add_right _ _)

theorem countP_shown_le (hblank : p ' ' = true → p '\t' = true) (scan : Scan)
    (text : List Char) :
    (shown (lexer.outputs scan text)).countP p ≤
      text.countP p + scan.pending.shown.countP p := by
  induction text generalizing scan with
  | nil => exact Nat.zero_le _
  | cons character rest ih =>
    have hstep := countP_lexStep_le hblank scan character
    have hrest := ih (lexStep scan character).1
    have hcons : (character :: rest).countP p = [character].countP p + rest.countP p :=
      @List.countP_append _ p [character] rest
    rw [Transducer.outputs_cons, shown_append, List.countP_append, hcons]
    show (shown (lexStep scan character).2).countP p +
      (shown (lexer.outputs (lexStep scan character).1 rest)).countP p ≤ _
    omega

end Count

/-- The character is not lost anywhere in the text. -/
def Keeps (character : Char) (text : List Char) (marked : List Mark) : Prop :=
  text.count character ≤ (shown marked).count character

/-- A character that stands only for itself, if for anything. -/
def isSingular (character : Char) : Bool :=
  !(character == ' ' || character == '\\' || character == '$')

theorem count_pending_shown {character : Char} (hsingular : isSingular character = true)
    (pending : Pending) : pending.shown.count character = 0 := by
  have hothers : ∀ other, isSingular other = false → other ≠ character := by
    intro other hother heq
    rw [heq, hsingular] at hother
    exact absurd hother (by decide)
  refine List.count_eq_zero.mpr fun hmem ↦ ?_
  cases pending with
  | nothing => exact absurd hmem List.not_mem_nil
  | name => exact absurd hmem List.not_mem_nil
  | escape => exact hothers '\\' (by decide) (List.mem_singleton.mp hmem).symm
  | dollar => exact hothers '$' (by decide) (List.mem_singleton.mp hmem).symm

/-- What is kept in a text is kept in its first character and in the rest of it. -/
theorem Keeps.cons {character first : Char} {rest : List Char} {scan : Scan}
    (hsingular : isSingular character = true)
    (hkeeps : Keeps character (first :: rest) (lexer.outputs scan (first :: rest))) :
    (first = character → character ∈ shown (lexStep scan first).2) ∧
      Keeps character rest (lexer.outputs (lexStep scan first).1 rest) := by
  have hblank : (' ' == character) = true → ('\t' == character) = true := by
    intro hspace
    rw [← eq_of_beq hspace] at hsingular
    exact absurd hsingular (by decide)
  have hstep := countP_lexStep_le (p := (· == character)) hblank scan first
  have hrest := countP_shown_le (p := (· == character)) hblank (lexStep scan first).1 rest
  have hbefore := count_pending_shown hsingular scan.pending
  have hafter := count_pending_shown hsingular (lexStep scan first).1.pending
  have hcons : (first :: rest).count character = [first].count character + rest.count character :=
    @List.count_append _ _ character [first] rest
  have houtputs : lexer.outputs scan (first :: rest) =
      (lexStep scan first).2 ++ lexer.outputs (lexStep scan first).1 rest := rfl
  unfold Keeps at hkeeps ⊢
  rw [houtputs, shown_append, List.count_append, hcons] at hkeeps
  simp only [← List.count_eq_countP] at hstep hrest
  refine ⟨fun hfirst ↦ ?_, by omega⟩
  rw [← List.count_pos_iff]
  rw [hfirst, List.count_singleton_self] at hkeeps
  rw [hfirst] at hafter hrest ⊢
  omega

/-! ### Quotes and backslashes -/

/-- A mark on the level of the command, outside of parentheses. -/
def Mark.isFlat : Mark → Bool
  | .bare _ | .quoted _ | .quote | .blank => true
  | .operator character => !(character == '(' || character == ')')
  | .expansion | .opens | .closes => false

/-- A single quote or a backslash. -/
def isQuoting (character : Char) : Bool := character == '\'' || character == '\\'

/-- On the level of the command, in single quotes or outside of quotations. -/
inductive Quiet : Scan → Prop
  | command (pending : Pending) (inWord : Bool) (hname : pending ≠ .name) :
    Quiet ⟨pending, .command inWord .text, []⟩
  | single : Quiet ⟨.nothing, .single, [.command true .text]⟩

/-- The sign of a comment or a double quote is lost. -/
def Loses (character : Char) (marked : List Mark) : Prop :=
  (character = '"' ∨ character = '#') ∧ character ∉ shown marked

/-- A step pays with a backslash for each single quote and backslash it shows. -/
def Pays (character : Char) (credit : ℕ) (step : Scan × List Mark) : Prop :=
  Quiet step.1 ∧ (shown step.2).countP isQuoting + step.1.pending.shown.count '\\' ≤
    [character].count '\\' + credit

theorem pays_command {pending : Pending} {inWord : Bool} {marked : List Mark} {character : Char}
    {credit : ℕ} (hname : pending ≠ .name)
    (hpays : (shown marked).countP isQuoting + pending.shown.count '\\' ≤
      [character].count '\\' + credit) :
    Pays character credit (⟨pending, .command inWord .text, []⟩, marked) :=
  ⟨Quiet.command pending inWord hname, hpays⟩

/-- A character outside of quotations pays for what it shows, or is lost. -/
theorem pays_lexCommand {pending : Pending} {inWord : Bool} {character : Char}
    (hflat : ∀ mark ∈ (lexCommand ⟨pending, .command inWord .text, []⟩ inWord .text character).2,
      mark.isFlat = true) :
    Pays character 0 (lexCommand ⟨pending, .command inWord .text, []⟩ inWord .text character) ∨
      Loses character
        (lexCommand ⟨pending, .command inWord .text, []⟩ inWord .text character).2 := by
  have hname : Pending.nothing ≠ .name := by decide
  revert hflat
  unfold lexCommand
  split
  · exact fun _ ↦ Or.inl ⟨Quiet.single, Nat.zero_le _⟩
  · exact fun _ ↦ Or.inr ⟨Or.inl rfl, List.not_mem_nil⟩
  · exact fun _ ↦ Or.inl (pays_command (by decide) (by decide))
  · exact fun _ ↦ Or.inl (pays_command (by decide) (by decide))
  · exact fun hflat ↦ absurd (hflat .opens List.mem_cons_self) (by decide)
  · exact fun hflat ↦ absurd (hflat (.operator '(') List.mem_cons_self) (by decide)
  · exact fun hflat ↦ absurd (hflat (.operator ')') List.mem_cons_self) (by decide)
  · exact fun _ ↦ Or.inl (pays_command hname (by decide))
  · exact fun _ ↦ Or.inl (pays_command hname (by decide))
  · exact fun _ ↦ Or.inl (pays_command hname (by decide))
  · exact fun _ ↦ Or.inl (pays_command hname (by decide))
  · exact fun _ ↦ Or.inl (pays_command hname (by decide))
  · exact fun _ ↦ Or.inl (pays_command hname (by decide))
  · exact fun _ ↦ Or.inl (pays_command hname (by decide))
  · exact fun _ ↦ Or.inl (pays_command hname (by decide))
  · cases inWord with
    | true => exact fun _ ↦ Or.inl (pays_command hname (by decide))
    | false => exact fun _ ↦ Or.inr ⟨Or.inr rfl, List.not_mem_nil⟩
  · next hquote _ hback _ _ _ _ _ _ _ _ _ _ _ _ _ =>
    have hplain : isQuoting character = false := by
      rw [isQuoting, Bool.or_eq_false_iff, beq_eq_false_iff_ne, beq_eq_false_iff_ne]
      exact ⟨hquote, hback⟩
    exact fun _ ↦ Or.inl (pays_command hname (by simp [Mark.shown, Pending.shown, hplain]))

/-- A character in single quotes pays for itself. -/
theorem pays_single (character : Char) :
    Pays character 0 (lexPlain ⟨.nothing, .single, [.command true .text]⟩ character) := by
  show Pays character 0 (if character = '\'' then _ else _)
  split_ifs with hquote
  · subst hquote
    exact pays_command (by decide) (by decide)
  · refine ⟨Quiet.single, ?_⟩
    by_cases hback : character = '\\'
    · subst hback
      exact Nat.le_refl 1
    · have hplain : isQuoting character = false := by
        rw [isQuoting, Bool.or_eq_false_iff, beq_eq_false_iff_ne, beq_eq_false_iff_ne]
        exact ⟨hquote, hback⟩
      simp [Mark.shown, Pending.shown, Scan.await, hplain]

/-- Behind a backslash only a single quote costs more than itself. -/
theorem pays_escape (inWord : Bool) (character : Char) :
    Pays character (if character = '\'' then 1 else 0)
      (lexStep ⟨.escape, .command inWord .text, []⟩ character) := by
  have hname : Pending.nothing ≠ .name := by decide
  by_cases hnewline : character = '\n'
  · subst hnewline
    exact pays_command hname (by decide)
  · have hstep : lexStep ⟨.escape, .command inWord .text, []⟩ character =
        (⟨.nothing, .command true .text, []⟩, [.quoted character]) := by
      simp [lexStep, hnewline, Scan.await, Context.word]
    rw [hstep]
    refine pays_command hname ?_
    by_cases hquote : character = '\''
    · subst hquote
      decide
    · rw [if_neg hquote]
      have hother : (character == '\'') = false := beq_eq_false_iff_ne.mpr hquote
      simp [Mark.shown, Pending.shown, isQuoting, hother, List.count_singleton]

theorem Pays.mono {character : Char} {small large : ℕ} {step : Scan × List Mark}
    (hpays : Pays character small step) (hle : small ≤ large) : Pays character large step :=
  ⟨hpays.1, hpays.2.trans (Nat.add_le_add_left hle _)⟩

/-- A step on the level of the command pays for what it shows, or loses its character. -/
theorem pays_lexStep {scan : Scan} (hquiet : Quiet scan) {character : Char}
    (hflat : ∀ mark ∈ (lexStep scan character).2, mark.isFlat = true) :
    Pays character (scan.pending.shown.count '\\') (lexStep scan character) ∨
      Loses character (lexStep scan character).2 := by
  cases hquiet with
  | single => exact Or.inl (pays_single character)
  | command pending inWord hname =>
    cases pending with
    | nothing => exact pays_lexCommand hflat
    | name => exact absurd rfl hname
    | escape =>
      refine Or.inl ((pays_escape inWord character).mono ?_)
      split_ifs
      · exact Nat.le_refl 1
      · exact Nat.zero_le 1
    | dollar =>
      revert hflat
      simp only [lexStep]
      split_ifs
      · exact fun hflat ↦ absurd (hflat .opens List.mem_cons_self) (by decide)
      · exact fun hflat ↦ absurd (hflat .expansion List.mem_cons_self) (by decide)
      · exact fun hflat ↦ absurd (hflat .expansion List.mem_cons_self) (by decide)
      · exact fun hflat ↦ absurd (hflat .expansion List.mem_cons_self) (by decide)
      · intro hflat
        have hplain : Pays character 0
            (lexCommand ⟨.nothing, .command true .text, []⟩ true .text character) ∨ _ :=
          pays_lexCommand fun mark hmark ↦ hflat mark (List.mem_cons_of_mem _ hmark)
        refine hplain.imp (fun hpays ↦ ⟨hpays.1, ?_⟩) fun hloses ↦ ⟨hloses.1, fun hmem ↦ ?_⟩
        · have hsign (marked : List Mark) : (shown (.bare '$' :: marked)).countP isQuoting =
              (shown marked).countP isQuoting := List.countP_cons_of_neg (by decide)
          exact le_of_eq_of_le (congrArg (· + _) (hsign _)) hpays.2
        · rcases List.mem_cons.mp hmem with hdollar | hmem
          · rcases hloses.1 with hquote | hsharp
            · exact absurd (hquote.symm.trans hdollar) (by decide)
            · exact absurd (hsharp.symm.trans hdollar) (by decide)
          · exact hloses.2 hmem

/-- Nothing of the text is lost to double quotes and comments. -/
def KeepsLevel (text : List Char) (marked : List Mark) : Prop :=
  Keeps '"' text marked ∧ Keeps '#' text marked

theorem KeepsLevel.cons {first : Char} {rest : List Char} {scan : Scan}
    (hkeeps : KeepsLevel (first :: rest) (lexer.outputs scan (first :: rest))) :
    ¬ Loses first (lexStep scan first).2 ∧
      KeepsLevel rest (lexer.outputs (lexStep scan first).1 rest) := by
  have hquote := hkeeps.1.cons (by decide)
  have hsharp := hkeeps.2.cons (by decide)
  refine ⟨fun hloses ↦ ?_, hquote.2, hsharp.2⟩
  rcases hloses.1 with heq | heq
  · exact hloses.2 (heq ▸ hquote.1 heq)
  · exact hloses.2 (heq ▸ hsharp.1 heq)

/-- Assumes: a command without substitutions, and without double quotes and comments. It has a
backslash for each single quote and backslash it shows. -/
theorem count_quotes_le {scan : Scan} (hquiet : Quiet scan) {text : List Char}
    (hflat : ∀ mark ∈ lexer.outputs scan text, mark.isFlat = true)
    (hkeeps : KeepsLevel text (lexer.outputs scan text)) :
    (shown (lexer.outputs scan text)).countP isQuoting ≤
      text.count '\\' + scan.pending.shown.count '\\' := by
  induction text generalizing scan with
  | nil => exact Nat.zero_le _
  | cons character rest ih =>
    have houtputs : lexer.outputs scan (character :: rest) =
      (lexStep scan character).2 ++ lexer.outputs (lexStep scan character).1 rest := rfl
    obtain ⟨hkept, hrest⟩ := hkeeps.cons
    rw [houtputs, List.forall_mem_append] at hflat
    obtain ⟨hnext, hpays⟩ := (pays_lexStep hquiet hflat.1).resolve_right hkept
    have hle := ih hnext hflat.2 hrest
    have hcons : (character :: rest).count '\\' = [character].count '\\' + rest.count '\\' :=
      @List.count_append _ _ '\\' [character] rest
    rw [houtputs, shown_append, List.countP_append, hcons]
    omega

/-- Behind a backslash in front of something else than a single quote too. -/
theorem count_quotes_escape_le {inWord : Bool} {character : Char} {rest : List Char}
    (hother : character ≠ '\'')
    (hflat : ∀ mark ∈ lexer.outputs ⟨.escape, .command inWord .text, []⟩ (character :: rest),
      mark.isFlat = true)
    (hkeeps : KeepsLevel (character :: rest)
      (lexer.outputs ⟨.escape, .command inWord .text, []⟩ (character :: rest))) :
    (shown (lexer.outputs ⟨.escape, .command inWord .text, []⟩ (character :: rest))).countP
      isQuoting ≤ (character :: rest).count '\\' := by
  have houtputs : lexer.outputs ⟨.escape, .command inWord .text, []⟩ (character :: rest) =
    (lexStep ⟨.escape, .command inWord .text, []⟩ character).2 ++
      lexer.outputs (lexStep ⟨.escape, .command inWord .text, []⟩ character).1 rest := rfl
  obtain ⟨hnext, hpays⟩ := pays_escape inWord character
  rw [if_neg hother] at hpays
  rw [houtputs, List.forall_mem_append] at hflat
  have hle := count_quotes_le hnext hflat.2 hkeeps.cons.2
  have hcons : (character :: rest).count '\\' = [character].count '\\' + rest.count '\\' :=
    @List.count_append _ _ '\\' [character] rest
  rw [houtputs, shown_append, List.countP_append, hcons]
  omega

/-! ### Bare text -/

/-- The characters that end a word and stand for themselves at that. -/
def separators : List Char := [' ', '\n', ';', '|', '&', '<', '>']

/-- A character stands for itself outside of quotations, with the text behind it: one without a
meaning, the sign of a comment within a word, or a dollar sign that starts no expansion. -/
def standsAlone (inWord : Bool) (character : Char) (rest : List Char) : Bool :=
  isPlain character || (character == '#' && inWord) ||
    (character == '$' && !rest.head?.any startsExpansion)

/-- Every character of a text stands for itself or separates; behind one that separates the next
word begins. -/
def isBare (separates : Char → Bool) : Bool → List Char → Bool
  | _, [] => true
  | inWord, character :: rest =>
    (separates character || standsAlone inWord character rest) &&
      isBare separates (!separates character) rest

/-- The mark of a character that stands for itself. -/
def bareMark (character : Char) : Mark :=
  if character = ' ' then .blank
  else if separators.contains character then .operator character
  else .bare character

theorem shown_bareMark (character : Char) : (bareMark character).shown = [character] := by
  unfold bareMark
  split_ifs with hblank
  · rw [hblank]
    rfl
  · rfl
  · rfl

/-- Outside of quotations, in a word or between words. -/
def Scan.outside (inWord : Bool) : Scan := ⟨.nothing, .command inWord .text, []⟩

theorem lexStep_separator {character : Char} (hseparates : separators.contains character = true)
    (inWord : Bool) :
    lexStep (.outside inWord) character = (.outside false, [bareMark character]) := by
  rw [List.contains_iff_mem] at hseparates
  simp only [separators, List.mem_cons, List.not_mem_nil, or_false] at hseparates
  rcases hseparates with rfl | rfl | rfl | rfl | rfl | rfl | rfl <;> rfl

theorem lexStep_plain {character : Char} (hplain : isPlain character = true) (inWord : Bool) :
    lexStep (.outside inWord) character = (.outside true, [.bare character]) :=
  lexCommand_of_isPlain hplain _ inWord .text

/-- A dollar sign in front of what starts no expansion stands for itself. -/
theorem outputs_dollar {inWord : Bool} {character : Char} (rest : List Char)
    (hstarts : startsExpansion character = false) :
    lexer.outputs (.outside inWord) ('$' :: character :: rest) =
      .bare '$' :: lexer.outputs (.outside true) (character :: rest) := by
  simp only [startsExpansion, Bool.or_eq_false_iff, decide_eq_false_iff_not] at hstarts
  obtain ⟨⟨⟨hname, hspecial⟩, hparenthesis⟩, hbrace⟩ := hstarts
  have hstep : lexStep ⟨.dollar, .command true .text, []⟩ character =
      ((lexPlain (.outside true) character).1,
        .bare '$' :: (lexPlain (.outside true) character).2) := by
    simp [lexStep, hname, hspecial, hparenthesis, hbrace, Scan.await, Scan.outside, dollarSign,
      Context.word]
  show (lexStep ⟨.dollar, .command true .text, []⟩ character).2 ++
    lexer.outputs (lexStep ⟨.dollar, .command true .text, []⟩ character).1 rest = _
  rw [hstep]
  rfl

/-- A dollar sign in front of what starts an expansion does not. -/
theorem outputs_expansion (inWord : Bool) {character : Char} (rest : List Char)
    (hstarts : startsExpansion character = true) :
    ∃ mark others, mark.isFlat = false ∧
      lexer.outputs (.outside inWord) ('$' :: character :: rest) = mark :: others := by
  have hstep : ∃ mark, mark.isFlat = false ∧
      (lexStep ⟨.dollar, .command true .text, []⟩ character).2 = [mark] := by
    simp only [lexStep]
    split_ifs with hparenthesis hbrace hname hspecial
    · exact ⟨.opens, rfl, rfl⟩
    · exact ⟨.expansion, rfl, rfl⟩
    · exact ⟨.expansion, rfl, rfl⟩
    · exact ⟨.expansion, rfl, rfl⟩
    · simp [startsExpansion, hparenthesis, hbrace, hname, hspecial] at hstarts
  obtain ⟨mark, hmark, hstep⟩ := hstep
  refine ⟨mark, lexer.outputs (lexStep ⟨.dollar, .command true .text, []⟩ character).1 rest,
    hmark, ?_⟩
  show (lexStep ⟨.dollar, .command true .text, []⟩ character).2 ++ _ = _
  rw [hstep]
  rfl

theorem head?_append_any (text rest : List Char) {next : Char} (test : Char → Bool)
    (hnext : test next = false) :
    ∃ first more, text ++ next :: rest = first :: more ∧ text.head?.any test = test first := by
  cases text with
  | nil => exact ⟨next, rest, rfl, hnext.symm⟩
  | cons first others => exact ⟨first, others ++ next :: rest, rfl, rfl⟩

theorem bareMark_of_inside {character : Char} (hinside : separators.contains character = false) :
    bareMark character = .bare character := by
  have hblank : character ≠ ' ' := by
    rintro rfl
    exact absurd hinside (by decide)
  rw [bareMark, if_neg hblank, hinside]
  rfl

/-- One character of bare text. -/
theorem outputs_bare_cons {character next : Char} {others rest : List Char} {inWord : Bool}
    (hnext : startsExpansion next = false)
    (halone : separators.contains character = true ∨ standsAlone inWord character others = true) :
    lexer.outputs (.outside inWord) (character :: (others ++ next :: rest)) =
      bareMark character ::
        lexer.outputs (.outside (!separators.contains character)) (others ++ next :: rest) := by
  by_cases hseparates : separators.contains character = true
  · rw [hseparates]
    show (lexStep (.outside inWord) character).2 ++
      lexer.outputs (lexStep (.outside inWord) character).1 (others ++ next :: rest) = _
    rw [lexStep_separator hseparates]
    rfl
  · have hinside : separators.contains character = false := by simpa using hseparates
    have hmark := bareMark_of_inside hinside
    have hword := halone.resolve_left hseparates
    rw [standsAlone, Bool.or_eq_true, Bool.or_eq_true, Bool.and_eq_true, Bool.and_eq_true,
      beq_iff_eq, beq_iff_eq] at hword
    rw [hmark, hinside]
    rcases hword with (hplain | ⟨rfl, rfl⟩) | ⟨rfl, hstarts⟩
    · show (lexStep (.outside inWord) character).2 ++
        lexer.outputs (lexStep (.outside inWord) character).1 (others ++ next :: rest) = _
      rw [lexStep_plain hplain]
      rfl
    · rfl
    · obtain ⟨first, more, htext, hany⟩ := head?_append_any others rest startsExpansion hnext
      rw [hany, Bool.not_eq_true'] at hstarts
      rw [htext]
      exact outputs_dollar more hstarts

/-- Bare text is read as it stands. -/
theorem outputs_bare {text : List Char} {next : Char} (rest : List Char)
    (hnext : startsExpansion next = false) {inWord : Bool}
    (hbare : isBare separators.contains inWord text = true) :
    ∃ after, lexer.outputs (.outside inWord) (text ++ next :: rest) =
      text.map bareMark ++ lexer.outputs (.outside after) (next :: rest) := by
  induction text generalizing inWord with
  | nil => exact ⟨inWord, rfl⟩
  | cons character others ih =>
    rw [isBare, Bool.and_eq_true, Bool.or_eq_true] at hbare
    obtain ⟨after, hafter⟩ := ih hbare.2
    refine ⟨after, ?_⟩
    rw [List.cons_append, outputs_bare_cons hnext hbare.1, hafter]
    rfl

/-! ### Nothing but bare text adds up -/

/-- The account of a text with more behind it: one level of commands, nothing lost, and as many
quotes and backslashes shown as there are backslashes in all and single quotes in the text. -/
structure Accounts (scan : Scan) (text rest : List Char) : Prop where
  flat : ∀ mark ∈ lexer.outputs scan (text ++ rest), mark.isFlat = true
  level : KeepsLevel (text ++ rest) (lexer.outputs scan (text ++ rest))
  tabs : Keeps '\t' (text ++ rest) (lexer.outputs scan (text ++ rest))
  quotes : (text ++ rest).count '\\' + text.count '\'' ≤
    (shown (lexer.outputs scan (text ++ rest))).countP isQuoting

theorem Keeps.of_cons {character first : Char} {text : List Char} {mark : Mark}
    {marked : List Mark} (hshown : mark.shown = [first])
    (hkeeps : Keeps character (first :: text) (mark :: marked)) : Keeps character text marked := by
  unfold Keeps at hkeeps ⊢
  rw [shown_cons, hshown, List.singleton_append, List.count_cons, List.count_cons] at hkeeps
  exact Nat.le_of_add_le_add_right hkeeps

/-- The account goes on behind a character that is shown and does not quote. -/
theorem Accounts.tail {scan next : Scan} {character : Char} {text rest : List Char} {mark : Mark}
    (haccounts : Accounts scan (character :: text) rest) (hshown : mark.shown = [character])
    (hquoting : isQuoting character = false)
    (houtputs : lexer.outputs scan (character :: (text ++ rest)) =
      mark :: lexer.outputs next (text ++ rest)) : Accounts next text rest := by
  obtain ⟨hflat, hlevel, htabs, hquotes⟩ := haccounts
  rw [List.cons_append, houtputs] at hflat hlevel htabs hquotes
  rw [isQuoting, Bool.or_eq_false_iff] at hquoting
  refine ⟨fun other hother ↦ hflat other (List.mem_cons_of_mem _ hother),
    ⟨hlevel.1.of_cons hshown, hlevel.2.of_cons hshown⟩, htabs.of_cons hshown, ?_⟩
  rw [shown_cons, hshown, List.singleton_append, List.countP_cons, List.count_cons, List.count_cons,
    isQuoting, hquoting.1, hquoting.2] at hquotes
  simpa using hquotes

/-- A single quote that quotes costs a backslash that is not there. -/
theorem Accounts.ne_quote {inWord : Bool} {character : Char} {text rest : List Char}
    (haccounts : Accounts (.outside inWord) (character :: text) rest) : character ≠ '\'' := by
  rintro rfl
  have hle : (shown (lexer.outputs ⟨.nothing, .single, [.command true .text]⟩
      (text ++ rest))).countP isQuoting ≤ (text ++ rest).count '\\' + 0 :=
    count_quotes_le Quiet.single
      (fun mark hmark ↦ haccounts.flat mark (List.mem_cons_of_mem _ hmark)) haccounts.level.cons.2
  have hback : ('\'' :: (text ++ rest)).count '\\' = (text ++ rest).count '\\' :=
    List.count_cons_of_ne (by decide)
  have hquote : ('\'' :: text).count '\'' = text.count '\'' + 1 := List.count_cons_self
  have houtputs : shown (lexer.outputs (.outside inWord) ('\'' :: (text ++ rest))) =
    shown (lexer.outputs ⟨.nothing, .single, [.command true .text]⟩ (text ++ rest)) := rfl
  have hquotes := haccounts.quotes
  rw [List.cons_append, hback, hquote, houtputs] at hquotes
  omega

/-- A backslash that quotes is lost, and the text has no single quote to show for it. -/
theorem Accounts.ne_backslash {inWord : Bool} {character next : Char} {text rest : List Char}
    (haccounts : Accounts (.outside inWord) (character :: text) (next :: rest))
    (hnext : next ≠ '\'') : character ≠ '\\' := by
  rintro rfl
  obtain ⟨hflat, hlevel, _, hquotes⟩ := haccounts
  have hback : ('\\' :: (text ++ next :: rest)).count '\\' =
      (text ++ next :: rest).count '\\' + 1 := List.count_cons_self
  have hquote : ('\\' :: text).count '\'' = text.count '\'' :=
    List.count_cons_of_ne (by decide)
  have houtputs : lexer.outputs (.outside inWord) ('\\' :: (text ++ next :: rest)) =
    lexer.outputs ⟨.escape, .command true .text, []⟩ (text ++ next :: rest) := rfl
  have hrest : KeepsLevel (text ++ next :: rest)
    (lexer.outputs ⟨.escape, .command true .text, []⟩ (text ++ next :: rest)) := hlevel.cons.2
  rw [List.cons_append, houtputs] at hflat hquotes
  rw [hback, hquote] at hquotes
  cases text with
  | nil =>
    have hle := count_quotes_escape_le hnext hflat hrest
    exact absurd (hquotes.trans hle) (Nat.not_succ_le_self _)
  | cons first others =>
    by_cases hfirst : first = '\''
    · have hle : _ ≤ (first :: others ++ next :: rest).count '\\' + 1 :=
        count_quotes_le (Quiet.command .escape true (by decide)) hflat hrest
      have hsome : 0 < (first :: others).count '\'' :=
        List.count_pos_iff.mpr (hfirst ▸ List.mem_cons_self)
      omega
    · have hsum : (first :: others ++ next :: rest).count '\\' + 1 +
            (first :: others).count '\'' ≤ (first :: others ++ next :: rest).count '\\' :=
        hquotes.trans (count_quotes_escape_le hfirst hflat hrest)
      omega

/-- Assumes: something behind the text that does not make it an expansion. Text that adds up is
bare. -/
theorem Accounts.isBare {inWord : Bool} {next : Char} {text rest : List Char}
    (hquote : next ≠ '\'') (hnext : startsExpansion next = false)
    (haccounts : Accounts (.outside inWord) text (next :: rest)) :
    isBare separators.contains inWord text = true := by
  induction text generalizing inWord with
  | nil => rfl
  | cons character others ih =>
    have hflat := haccounts.flat
    have hlost := haccounts.level.cons.1
    have hquoting : isQuoting character = false := by
      rw [isQuoting, Bool.or_eq_false_iff, beq_eq_false_iff_ne, beq_eq_false_iff_ne]
      exact ⟨haccounts.ne_quote, haccounts.ne_backslash hquote⟩
    have halone : separators.contains character = true ∨
        standsAlone inWord character others = true := by
      by_cases hplain : isPlain character = true
      · exact Or.inr (by simp [standsAlone, hplain])
      · have hspecial : character ∈ special := by simpa [isPlain] using hplain
        simp only [special, List.mem_cons, List.not_mem_nil, or_false] at hspecial
        rcases hspecial with rfl | rfl | rfl | rfl | rfl | rfl | rfl | rfl | rfl | rfl | rfl | rfl |
          rfl | rfl | rfl | rfl
        · exact absurd rfl haccounts.ne_quote
        · exact absurd ⟨Or.inl rfl, List.not_mem_nil⟩ hlost
        · exact absurd rfl (haccounts.ne_backslash hquote)
        · obtain ⟨first, more, htext, hany⟩ := head?_append_any others rest startsExpansion hnext
          cases hstarts : startsExpansion first with
          | false => exact Or.inr (by simp [standsAlone, hany, hstarts])
          | true =>
            obtain ⟨mark, marked, hmark, houtputs⟩ := outputs_expansion inWord more hstarts
            rw [List.cons_append, htext, houtputs] at hflat
            exact absurd (hflat mark List.mem_cons_self) (by simp [hmark])
        · exact absurd (hflat .opens List.mem_cons_self) (by decide)
        · exact absurd (hflat (.operator '(') List.mem_cons_self) (by decide)
        · exact absurd (hflat (.operator ')') List.mem_cons_self) (by decide)
        · exact Or.inl (by decide)
        · have hshown : '\t' ∈ shown [.blank] := (haccounts.tabs.cons (by decide)).1 rfl
          exact absurd hshown (by decide)
        · exact Or.inl (by decide)
        · exact Or.inl (by decide)
        · exact Or.inl (by decide)
        · exact Or.inl (by decide)
        · exact Or.inl (by decide)
        · exact Or.inl (by decide)
        · cases inWord with
          | true => exact Or.inr rfl
          | false => exact absurd ⟨Or.inr rfl, List.not_mem_nil⟩ hlost
    have hrest := haccounts.tail (shown_bareMark character) hquoting
      (outputs_bare_cons hnext halone)
    rw [Shell.isBare, Bool.and_eq_true, Bool.or_eq_true]
    exact ⟨halone, ih hrest⟩

/-! ### Words -/

/-- A mark that stands for itself, or a blank. -/
def Mark.isWordy (mark : Mark) : Bool := mark.isLiteral || mark == .blank

theorem Mark.isWordy_of_isLiteral {mark : Mark} (hliteral : mark.isLiteral = true) :
    mark.isWordy = true := by
  rw [Mark.isWordy, hliteral]
  rfl

theorem Mark.isFlat_of_isWordy {mark : Mark} (hwordy : mark.isWordy = true) :
    mark.isFlat = true := by
  cases mark with
  | bare _ => rfl
  | quoted _ => rfl
  | quote => rfl
  | blank => rfl
  | operator _ => exact absurd hwordy (by simp [Mark.isWordy, Mark.isLiteral])
  | expansion => exact absurd hwordy (by decide)
  | opens => exact absurd hwordy (by decide)
  | closes => exact absurd hwordy (by decide)

/-- The words that marks make. -/
def wordsOf (marked : List Mark) : List Word :=
  (reader.final ⟨.empty, []⟩ marked).level.finishWord.words

theorem text_append (first second : Word) :
    Word.text (first ++ second) = Word.text first ++ Word.text second :=
  List.filterMap_append

theorem readStep_literal {mark : Mark} (hliteral : mark.isLiteral = true) (reading : Reading) :
    readStep reading mark = ({ reading with level := reading.level.extend mark }, []) := by
  cases mark with
  | bare _ => rfl
  | quoted _ => rfl
  | quote => rfl
  | blank => exact absurd hliteral (by decide)
  | operator _ => exact absurd hliteral (by simp [Mark.isLiteral])
  | expansion => exact absurd hliteral (by decide)
  | opens => exact absurd hliteral (by decide)
  | closes => exact absurd hliteral (by decide)

/-- The text of the words read so far. -/
def Level.said (level : Level) : List Char :=
  (level.words.map Word.text).flatten ++ Word.text (level.word.getD [])

theorem said_extend (level : Level) (mark : Mark) :
    (level.extend mark).said = level.said ++ Word.text [mark] := by
  simp only [Level.said, Level.extend, Option.getD_some, text_append, List.append_assoc]

theorem said_finishWord {level : Level} (htarget : level.target = false) :
    level.finishWord.said = level.said ∧ level.finishWord.target = false ∧
      level.finishWord.word = none := by
  unfold Level.finishWord
  cases hword : level.word with
  | none => exact ⟨rfl, htarget, hword⟩
  | some word => simp [Level.said, htarget, hword, Word.text]

theorem said_final {marked : List Mark} (hwordy : ∀ mark ∈ marked, mark.isWordy = true)
    (level : Level) (htarget : level.target = false) :
    (reader.final ⟨level, []⟩ marked).level.said = level.said ++ Word.text marked ∧
      (reader.final ⟨level, []⟩ marked).level.target = false := by
  induction marked generalizing level with
  | nil => exact ⟨(List.append_nil _).symm, htarget⟩
  | cons mark rest ih =>
    have hrest := ih fun other hother ↦ hwordy other (List.mem_cons_of_mem _ hother)
    have htext : Word.text (mark :: rest) = Word.text [mark] ++ Word.text rest :=
      text_append [mark] rest
    have hmark := hwordy mark List.mem_cons_self
    rw [Mark.isWordy, Bool.or_eq_true, beq_iff_eq] at hmark
    rw [Transducer.final_cons]
    rcases hmark with hliteral | rfl
    · have hextend := hrest (level.extend mark) htarget
      rw [said_extend, List.append_assoc, ← htext] at hextend
      show (reader.final (readStep ⟨level, []⟩ mark).1 rest).level.said = _ ∧
        (reader.final (readStep ⟨level, []⟩ mark).1 rest).level.target = false
      rw [readStep_literal hliteral]
      exact hextend
    · obtain ⟨hsaid, hfinished, _⟩ := said_finishWord htarget
      have hblank := hrest level.finishWord hfinished
      rw [hsaid] at hblank
      exact hblank

/-- The text of the words has the characters of the marks without the blanks. -/
theorem flatten_text_wordsOf {marked : List Mark}
    (hwordy : ∀ mark ∈ marked, mark.isWordy = true) :
    ((wordsOf marked).map Word.text).flatten = Word.text marked := by
  obtain ⟨hsaid, htarget⟩ := said_final hwordy .empty rfl
  obtain ⟨hfinish, _, hnone⟩ := said_finishWord htarget
  have hempty : Level.empty.said = [] := rfl
  have hwords := hfinish.trans hsaid
  rw [Level.said, hnone, hempty, List.nil_append, Option.getD_none] at hwords
  exact (List.append_nil _).symm.trans hwords

/-- Words with blanks between them are read as these words. -/
theorem wordsOf_intercalate {words : List Word} (hsome : ∀ word ∈ words, word ≠ [])
    (hliteral : ∀ word ∈ words, ∀ mark ∈ word, mark.isLiteral = true) :
    wordsOf (List.intercalate [.blank] words) = words := by
  have hread (done : List Word) :
      (reader.final ⟨⟨none, done, false⟩, []⟩
        (List.intercalate [.blank] words)).level.finishWord.words = done ++ words := by
    induction words generalizing done with
    | nil => exact (List.append_nil done).symm
    | cons word rest ih =>
      have hword := read_word (hsome word List.mem_cons_self)
        (fun mark hmark ↦ Mark.isInWord_of_isLiteral
          (hliteral word List.mem_cons_self mark hmark)) ⟨⟨none, done, false⟩, []⟩
      cases rest with
      | nil =>
        rw [List.intercalate_singleton, hword.2]
        rfl
      | cons next more =>
        rw [List.intercalate_cons_cons, List.append_assoc, Transducer.final_append, hword.2]
        have hnext := ih (fun other hother ↦ hsome other (List.mem_cons_of_mem _ hother))
          (fun other hother ↦ hliteral other (List.mem_cons_of_mem _ hother)) (done ++ [word])
        rw [List.append_assoc] at hnext
        exact hnext
  exact hread []

/-! ### The cost of single quotes -/

theorem countP_isQuoting (text : List Char) :
    text.countP isQuoting = text.count '\'' + text.count '\\' := by
  induction text with
  | nil => rfl
  | cons character rest ih =>
    rw [List.countP_cons, List.count_cons, List.count_cons, ih, isQuoting]
    by_cases hquote : character = '\''
    · subst hquote
      simp only [beq_self_eq_true, Bool.true_or, if_true]
      rw [if_neg (by decide)]
      omega
    · rw [beq_eq_false_iff_ne.mpr hquote, Bool.false_or]
      simp only [Bool.false_eq_true, if_false]
      omega

/-- Text in single quotes has a backslash more for each single quote. -/
theorem count_backslash_quote (text : List Char) :
    (quote text).count '\\' = text.count '\\' + text.count '\'' := by
  have hinside : (text.flatMap escapeQuote).count '\\' = text.count '\\' + text.count '\'' := by
    induction text with
    | nil => rfl
    | cons character rest ih =>
      rw [List.flatMap_cons, List.count_append, ih, List.count_cons, List.count_cons, escapeQuote]
      by_cases hquote : character = '\''
      · subst hquote
        simp only [if_true, beq_self_eq_true]
        rw [if_neg (by decide)]
        have hfour : "'\\''".toList.count '\\' = 1 := by decide
        omega
      · rw [if_neg hquote, beq_eq_false_iff_ne.mpr hquote, List.count_singleton]
        simp only [Bool.false_eq_true, if_false]
        omega
  rw [quote, List.count_cons_of_ne (by decide), List.count_append, hinside]
  rfl

/-- Other characters are there as often as in the text. -/
theorem count_quote {character : Char} (hquoting : isQuoting character = false)
    (text : List Char) : (quote text).count character = text.count character := by
  rw [isQuoting, Bool.or_eq_false_iff, beq_eq_false_iff_ne, beq_eq_false_iff_ne] at hquoting
  obtain ⟨hquote, hback⟩ := hquoting
  have hinside : (text.flatMap escapeQuote).count character = text.count character := by
    induction text with
    | nil => rfl
    | cons first rest ih =>
      rw [List.flatMap_cons, List.count_append, ih, List.count_cons, escapeQuote]
      by_cases hfirst : first = '\''
      · subst hfirst
        rw [if_pos rfl, beq_eq_false_iff_ne.mpr (Ne.symm hquote)]
        have hfour : "'\\''".toList.count character = 0 := by
          refine List.count_eq_zero.mpr fun hmem ↦ ?_
          simp [hquote, hback] at hmem
        rw [hfour, Nat.zero_add]
        rfl
      · rw [if_neg hfirst, List.count_singleton]
        omega
  rw [quote, List.count_cons_of_ne (Ne.symm hquote), List.count_append, hinside]
  simp [Ne.symm hquote]

/-! ### Running a command -/

/-- What a command depends on besides its text: the texts that the shell refuses, and the words
whose unquoted patterns or tildes stand for something. -/
structure Surroundings where
  refuses : List Char → Prop
  stands : Word → Prop

/-- An unquoted pattern character, or an unquoted tilde in front. -/
def Word.isPattern (word : Word) : Bool :=
  ['*', '?', '['].any (fun character ↦ word.contains (.bare character)) ||
    word.head? == some (.bare '~')

theorem not_isPattern {word : Word} (hbare : ∀ character, .bare character ∈ word →
    character ∉ ['*', '?', '[', '~']) : word.isPattern = false := by
  have hnone (character : Char) (hspecial : character ∈ ['*', '?', '[', '~']) :
      .bare character ∉ word := fun hmem ↦ hbare character hmem hspecial
  have htilde : word.head? ≠ some (.bare '~') := fun hhead ↦
    hnone '~' (by decide) (List.mem_of_head? hhead)
  simp [Word.isPattern, hnone, htilde]

/-- The shell replaces the word. -/
def Surroundings.Replaces (around : Surroundings) (word : Word) : Prop :=
  word.isPattern = true ∧ around.stands word

/-- The text, up to a fixed suffix, is one command: the words it is read as are the program and its
arguments, and nothing is replaced. -/
def Surroundings.Runs (around : Surroundings) (suffix text : List Char)
    (arguments : List (List Char)) : Prop :=
  ∃ marked, marks text = marked ++ lexer.outputs (.outside true) (suffix ++ ['\n']) ∧
    (∀ mark ∈ marked, mark.isWordy = true) ∧ (wordsOf marked).map Word.text = arguments ∧
      ∀ word ∈ wordsOf marked, ¬ around.Replaces word

/-- The text around an argument: what is in front of it, what is behind it, and the suffix. What is
in front is words and blanks. What is behind reads the same within a word and between words, and
makes no expansion of a dollar sign in front of it. -/
structure Frame where
  front : List Char
  behind : List Char
  suffix : List Char
  inWord : Bool
  behindMarks : List Mark
  final_front : lexer.final .start front = .outside inWord
  shown_front : shown (lexer.outputs .start front) = front
  wordy_front : ∀ mark ∈ lexer.outputs .start front, mark.isWordy = true
  plain_front : front.countP isQuoting = 0
  outputs_behind : ∀ after, lexer.outputs (.outside after) (behind ++ (suffix ++ ['\n'])) =
    behindMarks ++ lexer.outputs (.outside true) (suffix ++ ['\n'])
  wordy_behind : ∀ mark ∈ behindMarks, mark.isWordy = true
  flat_suffix : ∀ mark ∈ lexer.outputs (.outside true) (suffix ++ ['\n']), mark.isFlat = true
  next : ∃ character rest, behind ++ (suffix ++ ['\n']) = character :: rest ∧
    character ≠ '\'' ∧ startsExpansion character = false

namespace Frame

variable (frame : Frame) (argument : List Char)

/-- The text with an argument. -/
def text : List Char := frame.front ++ (argument ++ (frame.behind ++ frame.suffix))

/-- How it is read when the argument is bare. -/
def bareMarks : List Mark :=
  lexer.outputs .start frame.front ++ (argument.map bareMark ++ frame.behindMarks)

variable {frame argument}

theorem marks_text : marks (frame.text argument) = lexer.outputs .start frame.front ++
    lexer.outputs (.outside frame.inWord)
      (argument ++ (frame.behind ++ (frame.suffix ++ ['\n']))) := by
  rw [marks, text, List.append_assoc, Transducer.outputs_append, frame.final_front,
    List.append_assoc, List.append_assoc]

/-- A bare argument is read as it stands. -/
theorem marks_text_of_bare
    (hbare : isBare separators.contains frame.inWord argument = true) :
    marks (frame.text argument) =
      frame.bareMarks argument ++ lexer.outputs (.outside true) (frame.suffix ++ ['\n']) := by
  obtain ⟨next, rest, hnext, _, hstarts⟩ := frame.next
  obtain ⟨after, hafter⟩ := outputs_bare rest hstarts hbare
  rw [marks_text, hnext, hafter, ← hnext, frame.outputs_behind, bareMarks, List.append_assoc,
    List.append_assoc]

theorem countP_text_le_shown (p : Char → Bool) (marked : List Mark) :
    (Word.text marked).countP p ≤ (shown marked).countP p := by
  induction marked with
  | nil => exact Nat.le_refl _
  | cons mark rest ih =>
    have htext : Word.text (mark :: rest) = Word.text [mark] ++ Word.text rest :=
      text_append [mark] rest
    have hmark : (Word.text [mark]).countP p ≤ mark.shown.countP p := by
      cases mark with
      | bare _ => exact Nat.le_refl _
      | quoted _ => exact Nat.le_refl _
      | quote => exact Nat.zero_le _
      | blank => exact Nat.zero_le _
      | operator _ => exact Nat.zero_le _
      | expansion => exact Nat.zero_le _
      | opens => exact Nat.zero_le _
      | closes => exact Nat.zero_le _
    rw [htext, shown_cons, List.countP_append, List.countP_append]
    exact Nat.add_le_add hmark ih

/-- Assumes: the arguments have every character of the text that a reading can lose, and enough
quotes and backslashes. The argument was bare if they are what is run. -/
theorem isBare_of_runs {around : Surroundings} {arguments : List (List Char)}
    (hlost : ∀ character ∈ ['"', '#', '\t'],
      (frame.text argument).count character ≤ arguments.flatten.count character)
    (hquotes : (frame.text argument).count '\\' + argument.count '\'' ≤
      arguments.flatten.countP isQuoting)
    (hruns : around.Runs frame.suffix (frame.text argument) arguments) :
    isBare separators.contains frame.inWord argument = true := by
  obtain ⟨marked, hmarks, hwordy, harguments, _⟩ := hruns
  obtain ⟨next, rest, hnext, hquote, hstarts⟩ := frame.next
  have htext : Word.text marked = arguments.flatten := by
    rw [← flatten_text_wordsOf hwordy, harguments]
  have hall : marks (frame.text argument) = _ := marks_text
  rw [hmarks, hnext] at hall
  -- every character that the arguments have is shown in front of the argument or from there on
  have hshown (p : Char → Bool) : arguments.flatten.countP p ≤ frame.front.countP p +
      (shown (lexer.outputs (.outside frame.inWord) (argument ++ next :: rest))).countP p := by
    have hle := countP_text_le_shown p (marked ++ lexer.outputs (.outside true)
      (frame.suffix ++ ['\n']))
    rw [text_append, List.countP_append, htext, hall, shown_append, List.countP_append,
      frame.shown_front] at hle
    omega
  have hcount (character : Char) (hnewline : character ≠ '\n') :
      (frame.text argument).count character =
        frame.front.count character + (argument ++ next :: rest).count character := by
    have hend : ['\n'].count character = 0 :=
      List.count_eq_zero.mpr fun hmem ↦ hnewline (List.mem_singleton.mp hmem)
    rw [← hnext, text]
    simp only [List.count_append, hend]
    omega
  have hkeeps (character : Char) (hmem : character ∈ ['"', '#', '\t'])
      (hnewline : character ≠ '\n') :
      Keeps character (argument ++ next :: rest)
        (lexer.outputs (.outside frame.inWord) (argument ++ next :: rest)) := by
    have hfront := hcount character hnewline
    have hle := (hlost character hmem).trans (hshown (· == character))
    simp only [← List.count_eq_countP] at hle
    unfold Keeps
    omega
  have haccounts : Accounts (.outside frame.inWord) argument (next :: rest) := by
    refine ⟨fun mark hmark ↦ ?_,
      ⟨hkeeps _ (by decide) (by decide), hkeeps _ (by decide) (by decide)⟩,
      hkeeps _ (by decide) (by decide), ?_⟩
    · have hin := List.mem_append_right (lexer.outputs .start frame.front) hmark
      rw [← hall] at hin
      rcases List.mem_append.mp hin with hwords | hsuffix
      · exact Mark.isFlat_of_isWordy (hwordy mark hwords)
      · exact frame.flat_suffix mark hsuffix
    · have hback := hcount '\\' (by decide)
      have hle := hquotes.trans (hshown isQuoting)
      rw [frame.plain_front] at hle
      omega
  exact haccounts.isBare hquote hstarts

/-- Assumes: the arguments have every character of the text that a reading can lose, and enough
quotes and backslashes. When they are what is run. -/
theorem runs_iff {around : Surroundings} {arguments : List (List Char)}
    (hlost : ∀ character ∈ ['"', '#', '\t'],
      (frame.text argument).count character ≤ arguments.flatten.count character)
    (hquotes : (frame.text argument).count '\\' + argument.count '\'' ≤
      arguments.flatten.countP isQuoting) :
    around.Runs frame.suffix (frame.text argument) arguments ↔
      isBare separators.contains frame.inWord argument = true ∧
        (∀ mark ∈ frame.bareMarks argument, mark.isWordy = true) ∧
          (wordsOf (frame.bareMarks argument)).map Word.text = arguments ∧
            ∀ word ∈ wordsOf (frame.bareMarks argument), ¬ around.Replaces word := by
  constructor
  · intro hruns
    have hbare := isBare_of_runs hlost hquotes hruns
    obtain ⟨marked, hmarks, hrest⟩ := hruns
    rw [marks_text_of_bare hbare] at hmarks
    obtain rfl := List.append_cancel_right hmarks
    exact ⟨hbare, hrest⟩
  · rintro ⟨hbare, hrest⟩
    exact ⟨_, marks_text_of_bare hbare, hrest⟩

end Frame

/-! ### Bare words -/

/-- Bare text without anything that separates. -/
def isBareWord (inWord : Bool) (text : List Char) : Bool := isBare (fun _ ↦ false) inWord text

theorem inside_of_standsAlone {inWord : Bool} {character : Char} {rest : List Char}
    (halone : standsAlone inWord character rest = true) :
    separators.contains character = false := by
  have hsub : ∀ other ∈ separators, isPlain other = false ∧ other ≠ '#' ∧ other ≠ '$' := by
    simp [separators, isPlain, special]
  by_contra hseparates
  rw [Bool.not_eq_false, List.contains_iff_mem] at hseparates
  obtain ⟨hplain, hsharp, hdollar⟩ := hsub character hseparates
  simp [standsAlone, hplain, hsharp, hdollar] at halone

theorem isBareWord_iff {inWord : Bool} {text : List Char} :
    isBareWord inWord text = true ↔ isBare separators.contains inWord text = true ∧
      ∀ character ∈ text, separators.contains character = false := by
  induction text generalizing inWord with
  | nil => simp [isBareWord, isBare]
  | cons character rest ih =>
    have htail : isBareWord true rest = true ↔ _ := ih
    rw [isBareWord] at htail ⊢
    rw [isBare, isBare, Bool.false_or, Bool.not_false, Bool.and_eq_true, htail, Bool.and_eq_true,
      List.forall_mem_cons]
    constructor
    · rintro ⟨halone, hrest, hall⟩
      have hinside := inside_of_standsAlone halone
      rw [hinside]
      exact ⟨⟨halone, hrest⟩, rfl, hall⟩
    · rintro ⟨⟨halone, hrest⟩, hinside, hall⟩
      rw [hinside] at halone hrest
      exact ⟨halone, hrest, hall⟩

theorem map_bareMark {text : List Char}
    (hinside : ∀ character ∈ text, separators.contains character = false) :
    text.map bareMark = text.map .bare :=
  List.map_congr_left fun character hmem ↦ bareMark_of_inside (hinside character hmem)

theorem text_map_bareMark (text : List Char) :
    Word.text (text.map bareMark) = text.filter fun character ↦ !separators.contains character := by
  induction text with
  | nil => rfl
  | cons character rest ih =>
    have hcons : Word.text ((character :: rest).map bareMark) =
        Word.text [bareMark character] ++ Word.text (rest.map bareMark) :=
      text_append [bareMark character] (rest.map bareMark)
    rw [hcons, ih]
    by_cases hseparates : separators.contains character = true
    · rw [List.filter_cons_of_neg (by simp only [hseparates]; decide)]
      by_cases hblank : character = ' '
      · rw [bareMark, if_pos hblank]
        rfl
      · rw [bareMark, if_neg hblank, if_pos hseparates]
        rfl
    · have hinside : separators.contains character = false := by simpa using hseparates
      rw [bareMark_of_inside hinside, List.filter_cons_of_pos (by simp only [hinside]; decide)]
      rfl

/-- A separator between two texts. -/
theorem isBare_append_cons {inWord : Bool} {first second : List Char} {character : Char}
    (hseparates : separators.contains character = true)
    (hstarts : startsExpansion character = false) :
    isBare separators.contains inWord (first ++ character :: second) = true ↔
      isBare separators.contains inWord first = true ∧
        isBare separators.contains false second = true := by
  induction first generalizing inWord with
  | nil =>
    rw [List.nil_append, isBare, isBare, hseparates]
    simp
  | cons other rest ih =>
    have hhead : standsAlone inWord other (rest ++ character :: second) =
        standsAlone inWord other rest := by
      obtain ⟨next, more, htext, hany⟩ := head?_append_any rest second startsExpansion hstarts
      simp [standsAlone, htext, hany]
    rw [List.cons_append, isBare, isBare, hhead, Bool.and_eq_true, ih, Bool.and_eq_true, and_assoc]

/-- Where nothing is quoted no word is empty. -/
theorem text_ne_nil_of_mem_wordsOf {marked : List Mark}
    (hbare : ∀ mark ∈ marked, mark = .blank ∨ ∃ character, mark = .bare character) :
    ∀ word ∈ wordsOf marked, Word.text word ≠ [] := by
  have hfinish (level : Level) (htarget : level.target = false)
      (hwords : ∀ word ∈ level.words ++ level.word.toList, Word.text word ≠ []) :
      ∀ word ∈ level.finishWord.words, Word.text word ≠ [] := by
    unfold Level.finishWord
    cases hword : level.word with
    | none => simpa [hword] using hwords
    | some word =>
      rw [htarget]
      simpa [hword] using hwords
  have hread (level : Level) (htarget : level.target = false)
      (hwords : ∀ word ∈ level.words ++ level.word.toList, Word.text word ≠ []) :
      ∀ word ∈ (reader.final ⟨level, []⟩ marked).level.finishWord.words, Word.text word ≠ [] := by
    induction marked generalizing level with
    | nil => exact hfinish level htarget hwords
    | cons mark rest ih =>
      have hrest := ih fun other hother ↦ hbare other (List.mem_cons_of_mem _ hother)
      rcases hbare mark List.mem_cons_self with rfl | ⟨character, rfl⟩
      · obtain ⟨_, hfinished, hnone⟩ := said_finishWord htarget
        refine hrest level.finishWord hfinished ?_
        rw [hnone, Option.toList_none, List.append_nil]
        exact hfinish level htarget hwords
      · refine hrest (level.extend (.bare character)) htarget fun word hword ↦ ?_
        rcases List.mem_append.mp hword with hbefore | hlast
        · exact hwords word (List.mem_append_left _ hbefore)
        · have hword : word = level.word.getD [] ++ [Mark.bare character] := by
            simpa [Level.extend] using hlast
          rw [hword, text_append]
          exact List.append_ne_nil_of_right_ne_nil _ (List.cons_ne_nil character [])
  exact hread .empty rfl fun _ hmem ↦ absurd hmem List.not_mem_nil

namespace Frame

variable {frame : Frame} {argument : List Char}

/-- Assumes: as before, and the argument is in one of the words. When they are what is run. -/
theorem runs_word_iff {around : Surroundings} {arguments : List (List Char)}
    (hlost : ∀ character ∈ ['"', '#', '\t'],
      (frame.text argument).count character ≤ arguments.flatten.count character)
    (hquotes : (frame.text argument).count '\\' + argument.count '\'' ≤
      arguments.flatten.countP isQuoting)
    (hflatten : arguments.flatten = Word.text (lexer.outputs .start frame.front) ++
      (argument ++ Word.text frame.behindMarks)) :
    around.Runs frame.suffix (frame.text argument) arguments ↔
      isBareWord frame.inWord argument = true ∧
        (wordsOf (lexer.outputs .start frame.front ++
          (argument.map .bare ++ frame.behindMarks))).map Word.text = arguments ∧
        ∀ word ∈ wordsOf (lexer.outputs .start frame.front ++
          (argument.map .bare ++ frame.behindMarks)), ¬ around.Replaces word := by
  rw [runs_iff hlost hquotes, isBareWord_iff]
  constructor
  · rintro ⟨hbare, hwordy, harguments, hreplaces⟩
    have htext := flatten_text_wordsOf hwordy
    rw [harguments, hflatten, bareMarks, text_append, text_append, text_map_bareMark] at htext
    have hall := List.append_cancel_right (List.append_cancel_left htext)
    have hinside : ∀ character ∈ argument, separators.contains character = false := by
      intro character hmem
      rw [hall] at hmem
      simpa using (List.mem_filter.mp hmem).2
    rw [bareMarks, map_bareMark hinside] at harguments hreplaces
    exact ⟨⟨hbare, hinside⟩, harguments, hreplaces⟩
  · rintro ⟨⟨hbare, hinside⟩, harguments, hreplaces⟩
    rw [bareMarks, map_bareMark hinside]
    refine ⟨hbare, fun mark hmark ↦ ?_, harguments, hreplaces⟩
    rcases List.mem_append.mp hmark with hfront | hmark
    · exact frame.wordy_front mark hfront
    · rcases List.mem_append.mp hmark with hargument | hbehind
      · exact Mark.isWordy_of_isLiteral (isLiteral_of_mem_map_bare hargument)
      · exact frame.wordy_behind mark hbehind

end Frame

end Shell
