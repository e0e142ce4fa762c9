import Tollgate.Library.Words

/-!
# Scripts

A script is text with a command on each line and single blanks between the words of a command.
`Script.read` finds the words again, so no two scripts of words have one text
(`Script.text_injective`).
-/

set_option autoImplicit false
set_option relaxedAutoImplicit false

namespace Tollgate

namespace Script

/-- White space between the words of a line. -/
def isBlank (char : Char) : Bool :=
  char = ' ' || char = '\t'

/-- The text of a script. -/
def text (lines : List (List String)) : String :=
  String.ofList (Text.ofLines (lines.map fun line ↦
    List.intercalate [' '] (line.map String.toList)))

/-- The words of each line. -/
def read (script : String) : List (List String) :=
  (Text.lines script.toList).map fun line ↦ (Text.words isBlank line).map String.ofList

/-- A word that stands in a line as it is. -/
def IsToken (word : String) : Prop :=
  word.toList ≠ [] ∧ ∀ char ∈ word.toList, char ∉ [' ', '\t', '\n', '\r']

instance (word : String) : Decidable (IsToken word) :=
  inferInstanceAs (Decidable (_ ∧ _))

/-- All the words of a script stand in it as they are. -/
def Tokens (lines : List (List String)) : Prop :=
  ∀ line ∈ lines, ∀ word ∈ line, IsToken word

instance (lines : List (List String)) : Decidable (Tokens lines) :=
  inferInstanceAs (Decidable (∀ line ∈ lines, ∀ word ∈ line, IsToken word))

theorem IsToken.isWord {word : String} (hword : IsToken word) :
    Text.IsWord isBlank word.toList := by
  refine ⟨hword.1, fun char hchar ↦ ?_⟩
  have hnone := hword.2 char hchar
  simp only [List.mem_cons, not_or] at hnone
  simp [isBlank, hnone.1, hnone.2.1]

theorem inLine_intercalate {line : List String} (hline : ∀ word ∈ line, IsToken word)
    {char : Char} (hchar : char ∈ List.intercalate [' '] (line.map String.toList)) :
    char ≠ '\n' ∧ char ≠ '\r' := by
  induction line with
  | nil => exact absurd hchar List.not_mem_nil
  | cons word rest ih =>
    have hword (hmem : char ∈ word.toList) : char ≠ '\n' ∧ char ≠ '\r' := by
      have hnone := (hline word List.mem_cons_self).2 char hmem
      simp only [List.mem_cons, not_or] at hnone
      exact ⟨hnone.2.2.1, hnone.2.2.2.1⟩
    cases rest with
    | nil => exact hword (by simpa using hchar)
    | cons next more =>
      rw [List.map_cons, List.map_cons, List.intercalate_cons_cons, List.mem_append,
        List.mem_append, List.mem_singleton] at hchar
      rcases hchar with (hmem | rfl) | hlater
      · exact hword hmem
      · decide
      · exact ih (fun other hother ↦ hline other (List.mem_cons_of_mem _ hother)) hlater

/-- Assumes: words that stand as they are. They are found again. -/
theorem read_text {lines : List (List String)} (hlines : Tokens lines) :
    read (text lines) = lines := by
  have hread : Text.lines (text lines).toList =
      lines.map fun line ↦ List.intercalate [' '] (line.map String.toList) := by
    rw [text, String.toList_ofList, Text.lines_ofLines, List.map_map]
    · refine List.map_congr_left fun line hline ↦ Text.stripCr_eq_self fun char hchar ↦ ?_
      exact (inLine_intercalate (hlines line hline) hchar).2
    · intro characters hcharacters hmem
      obtain ⟨line, hline, rfl⟩ := List.mem_map.mp hcharacters
      exact (inLine_intercalate (hlines line hline) hmem).1 rfl
  rw [read, hread, List.map_map]
  refine (List.map_congr_left fun line hline ↦ ?_).trans (List.map_id lines)
  have hwords : ∀ characters ∈ line.map String.toList, Text.IsWord isBlank characters := by
    intro characters hcharacters
    obtain ⟨word, hword, rfl⟩ := List.mem_map.mp hcharacters
    exact (hlines line hline word hword).isWord
  rw [Function.comp_apply, Text.words_intercalate rfl hwords, List.map_map]
  simp

/-- Assumes: words that stand as they are. One text, one script. -/
theorem text_injective {lines others : List (List String)} (hlines : Tokens lines)
    (hothers : Tokens others) (hsame : text lines = text others) : lines = others := by
  rw [← read_text hlines, hsame, read_text hothers]

end Script

end Tollgate
