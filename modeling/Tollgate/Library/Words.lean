import Tollgate.Library.Text

/-!
# Words of a line

`Text.words` cuts a text at its white space. `words_append` takes the first word off a text, and
`words_intercalate` reads back the words of a line that was put together with blanks of any width,
so a table with padded columns has the cells it was printed from.
-/

set_option autoImplicit false
set_option relaxedAutoImplicit false

namespace Tollgate

namespace Text

variable {white : Char → Bool}

/-- `split_whitespace`: the pieces of a text between its white space. -/
def words (white : Char → Bool) (text : List Char) : List (List Char) :=
  (text.splitOnP white).filter (· ≠ [])

/-- A word holds no white space, and is not empty. -/
def IsWord (white : Char → Bool) (text : List Char) : Prop :=
  text ≠ [] ∧ ∀ char ∈ text, white char = false

instance (white : Char → Bool) (text : List Char) : Decidable (IsWord white text) :=
  inferInstanceAs (Decidable (_ ∧ _))

/-- White space in front makes no difference. -/
theorem words_cons {char : Char} (hchar : white char = true) (text : List Char) :
    words white (char :: text) = words white text := by
  have hnone : ∀ other ∈ ([] : List Char), white other = false := by simp
  have hfirst := List.splitOnP_append_cons_of_forall_mem hnone char hchar text
  rw [List.nil_append] at hfirst
  rw [words, hfirst, List.filter_cons_of_neg (by simp), words]

theorem words_blanks {blanks : List Char} (hblanks : ∀ char ∈ blanks, white char = true)
    (text : List Char) : words white (blanks ++ text) = words white text := by
  induction blanks with
  | nil => rfl
  | cons char rest ih =>
    rw [List.cons_append, words_cons (hblanks char List.mem_cons_self),
      ih fun other hother ↦ hblanks other (List.mem_cons_of_mem _ hother)]

/-- A single word. -/
theorem words_word {word : List Char} (hword : IsWord white word) : words white word = [word] := by
  rw [words, List.splitOnP_eq_singleton hword.2, List.filter_cons_of_pos (by simpa using hword.1),
    List.filter_nil]

/-- The first word of a text. -/
theorem words_append {word : List Char} (hword : IsWord white word) {char : Char}
    (hchar : white char = true) (text : List Char) :
    words white (word ++ char :: text) = word :: words white text := by
  rw [words, List.splitOnP_append_cons_of_forall_mem hword.2 char hchar,
    List.filter_cons_of_pos (by simpa using hword.1), words]

/-- What is found is a word. -/
theorem isWord_of_mem_words {text word : List Char} (hword : word ∈ words white text) :
    IsWord white word := by
  obtain ⟨hpiece, hsome⟩ := List.mem_filter.mp hword
  refine ⟨by simpa using hsome, ?_⟩
  clear hword hsome
  induction text generalizing word with
  | nil =>
    rw [List.splitOnP_nil, List.mem_singleton] at hpiece
    simp [hpiece]
  | cons first rest ih =>
    rw [List.splitOnP_cons_eq_if_modifyHead] at hpiece
    split_ifs at hpiece with hfirst
    · rcases List.mem_cons.mp hpiece with rfl | hlater
      · simp
      · exact ih hlater
    · cases hpieces : rest.splitOnP white with
      | nil => exact absurd hpieces (List.splitOnP_ne_nil white rest)
      | cons piece more =>
        rw [hpieces, List.modifyHead_cons] at hpiece
        rcases List.mem_cons.mp hpiece with rfl | hlater
        · intro char hchar
          rcases List.mem_cons.mp hchar with rfl | hmem
          · simpa using hfirst
          · exact ih (hpieces ▸ List.mem_cons_self) char hmem
        · exact ih (hpieces ▸ List.mem_cons_of_mem _ hlater)

/-- A line of words, each with the blanks behind it. -/
def row (cells : List (List Char × List Char)) : List Char :=
  cells.flatMap fun cell ↦ cell.1 ++ cell.2

/-- Assumes: words, each with some white space behind it. The words of the line are those. -/
theorem words_row {cells : List (List Char × List Char)}
    (hcells : ∀ cell ∈ cells, IsWord white cell.1 ∧ cell.2 ≠ [] ∧
      ∀ char ∈ cell.2, white char = true) (rest : List Char) :
    words white (row cells ++ rest) = cells.map Prod.fst ++ words white rest := by
  induction cells with
  | nil => rfl
  | cons cell more ih =>
    obtain ⟨hword, hsome, hblanks⟩ := hcells cell List.mem_cons_self
    have hmore := ih fun other hother ↦ hcells other (List.mem_cons_of_mem _ hother)
    obtain ⟨blank, blanks, hcell⟩ := List.exists_cons_of_ne_nil hsome
    rw [hcell] at hblanks
    have hline : row (cell :: more) ++ rest =
        cell.1 ++ blank :: (blanks ++ (row more ++ rest)) := by
      simp [row, hcell]
    rw [hline, words_append hword (hblanks blank List.mem_cons_self),
      words_blanks fun char hchar ↦ hblanks char (List.mem_cons_of_mem _ hchar), hmore]
    rfl

/-- Assumes: words. A line of them with single blanks between is read back. -/
theorem words_intercalate {blank : Char} (hblank : white blank = true) {texts : List (List Char)}
    (htexts : ∀ text ∈ texts, IsWord white text) :
    words white (List.intercalate [blank] texts) = texts := by
  induction texts with
  | nil => rfl
  | cons text rest ih =>
    have htext := htexts text List.mem_cons_self
    have hrest := ih fun other hother ↦ htexts other (List.mem_cons_of_mem _ hother)
    cases rest with
    | nil => rw [List.intercalate_singleton, words_word htext]
    | cons next more =>
      rw [List.intercalate_cons_cons, List.append_assoc, List.singleton_append,
        words_append htext hblank, hrest]

theorem stripCr_eq_self {line : List Char} (hline : ∀ char ∈ line, char ≠ '\r') :
    stripCr line = line := by
  unfold stripCr stripSuffix stripPrefix
  split_ifs with hstart
  · obtain ⟨before, hbefore⟩ := List.isPrefixOf_iff_prefix.mp hstart
    have hmem : '\r' ∈ line.reverse := hbefore ▸ List.mem_append_left _ (by simp)
    exact absurd rfl (hline '\r' (List.mem_reverse.mp hmem))
  · rfl

end Text

end Tollgate
