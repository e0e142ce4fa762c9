import Mathlib

/-!
# Searching in text

Texts as lists of characters, with the operations of Rust's `str` that look for something in them:
the lines, the text without the white space at its ends, and the text before and after the first
occurrence of a pattern.

A pattern does not reach over a character that is not in it. So where a text is put together from
parts with such characters between them, `cut_append_cons` finds the pattern in the part it is in,
whatever the parts in front of it are, as long as they do not contain it.
-/

set_option autoImplicit false
set_option relaxedAutoImplicit false

namespace Tollgate

namespace Text

/-! ### Patterns -/

/-- The text in front of the first occurrence of a pattern, and the text behind it. -/
def cut (pattern : List Char) : List Char → Option (List Char × List Char)
  | [] => if pattern = [] then some ([], []) else none
  | char :: rest =>
    if pattern.isPrefixOf (char :: rest) = true then
      some ([], (char :: rest).drop pattern.length)
    else (cut pattern rest).map fun found ↦ (char :: found.1, found.2)

/-- `contains`. -/
def contains (pattern text : List Char) : Bool :=
  (cut pattern text).isSome

/-- The first part of `split`. -/
def splitFirst (pattern text : List Char) : List Char :=
  ((cut pattern text).map Prod.fst).getD text

/-- The second part of `split`, if there is one. -/
def splitSecond (pattern text : List Char) : Option (List Char) :=
  (cut pattern text).map fun found ↦ splitFirst pattern found.2

/-- `strip_prefix`. -/
def stripPrefix (pattern text : List Char) : Option (List Char) :=
  if pattern.isPrefixOf text = true then some (text.drop pattern.length) else none

/-- `strip_suffix`. -/
def stripSuffix (pattern text : List Char) : Option (List Char) :=
  (stripPrefix pattern.reverse text.reverse).map List.reverse

theorem stripPrefix_append (pattern rest : List Char) :
    stripPrefix pattern (pattern ++ rest) = some rest := by
  rw [stripPrefix, if_pos (by simp), List.drop_left]

/-- A text that starts with another character. -/
theorem stripPrefix_cons_of_ne {first other : Char} (hne : first ≠ other)
    (pattern text : List Char) : stripPrefix (first :: pattern) (other :: text) = none := by
  rw [stripPrefix, if_neg]
  rw [List.isPrefixOf_iff_prefix, List.cons_prefix_cons]
  exact fun hboth ↦ hne hboth.1

theorem stripSuffix_append (pattern before : List Char) :
    stripSuffix pattern (before ++ pattern) = some before := by
  rw [stripSuffix, List.reverse_append, stripPrefix_append, Option.map_some, List.reverse_reverse]

/-- A pattern that the text starts with ends before a character that is not in it. -/
theorem prefix_of_prefix_append_cons {pattern before after : List Char} {char : Char}
    (hchar : char ∉ pattern) (hstart : pattern <+: before ++ char :: after) :
    pattern <+: before := by
  induction before generalizing pattern with
  | nil =>
    cases pattern with
    | nil => exact List.nil_prefix
    | cons first rest =>
      obtain rfl : first = char := (List.cons_prefix_cons.mp hstart).1
      exact absurd List.mem_cons_self hchar
  | cons first rest ih =>
    cases pattern with
    | nil => exact List.nil_prefix
    | cons other more =>
      obtain ⟨rfl, hmore⟩ := List.cons_prefix_cons.mp hstart
      exact List.cons_prefix_cons.mpr
        ⟨rfl, ih (fun hmem ↦ hchar (List.mem_cons_of_mem _ hmem)) hmore⟩

/-- A pattern is on one side of a character that is not in it. -/
theorem infix_append_cons_iff {pattern before after : List Char} {char : Char}
    (hchar : char ∉ pattern) :
    pattern <:+: before ++ char :: after ↔ pattern <:+: before ∨ pattern <:+: after := by
  constructor
  · intro hpart
    induction before with
    | nil =>
      refine (List.infix_cons_iff.mp hpart).imp_left fun hstart ↦ ?_
      have hstart : pattern <+: [] := prefix_of_prefix_append_cons hchar hstart
      exact hstart.isInfix
    | cons first rest ih =>
      rcases List.infix_cons_iff.mp hpart with hstart | hrest
      · have hstart : pattern <+: first :: rest := prefix_of_prefix_append_cons hchar hstart
        exact Or.inl hstart.isInfix
      · exact (ih hrest).imp_left List.infix_cons
  · rintro (hbefore | hafter)
    · exact hbefore.trans (List.prefix_append _ _).isInfix
    · exact hafter.trans ((List.suffix_cons char after).trans (List.suffix_append _ _)).isInfix

theorem cut_eq_none_iff {pattern text : List Char} :
    cut pattern text = none ↔ ¬ pattern <:+: text := by
  induction text with
  | nil => simp [cut]
  | cons char rest ih =>
    rw [cut, List.infix_cons_iff, not_or, ← List.isPrefixOf_iff_prefix]
    split_ifs with hstart
    · simp [hstart]
    · simp [hstart, ih]

/-- A character of the pattern that is not in the text. -/
theorem not_infix_of_notMem {pattern text : List Char} (char : Char) (hpattern : char ∈ pattern)
    (htext : char ∉ text) : ¬ pattern <:+: text :=
  fun hpart ↦ htext (hpart.subset hpattern)

theorem cut_append_self {pattern : List Char} (hsome : pattern ≠ []) (rest : List Char) :
    cut pattern (pattern ++ rest) = some ([], rest) := by
  cases pattern with
  | nil => exact absurd rfl hsome
  | cons char more =>
    rw [List.cons_append, cut, if_pos (by simp), ← List.cons_append, List.drop_left]

/-- A pattern that is not in front of the character is looked for behind it. -/
theorem cut_append_cons {pattern before after : List Char} {char : Char} (hchar : char ∉ pattern)
    (hbefore : ¬ pattern <:+: before) :
    cut pattern (before ++ char :: after) =
      (cut pattern after).map fun found ↦ (before ++ char :: found.1, found.2) := by
  have hnot {text : List Char} (htext : ¬ pattern <:+: text) :
      ¬ pattern.isPrefixOf (text ++ char :: after) = true := by
    rw [List.isPrefixOf_iff_prefix]
    exact fun hstart ↦ htext (prefix_of_prefix_append_cons hchar hstart).isInfix
  induction before with
  | nil =>
    have hstart := hnot hbefore
    rw [List.nil_append] at hstart ⊢
    rw [cut, if_neg hstart]
    rfl
  | cons first rest ih =>
    have hstart := hnot hbefore
    rw [List.cons_append] at hstart ⊢
    rw [cut, if_neg hstart,
      ih fun hpart ↦ hbefore (List.infix_cons hpart), Option.map_map]
    rfl

theorem splitFirst_of_not_infix {pattern text : List Char} (hnone : ¬ pattern <:+: text) :
    splitFirst pattern text = text := by
  rw [splitFirst, cut_eq_none_iff.mpr hnone]
  rfl

/-- What is behind a pattern that comes once, in front. -/
theorem splitSecond_append {pattern after : List Char} (hsome : pattern ≠ [])
    (hafter : ¬ pattern <:+: after) : splitSecond pattern (pattern ++ after) = some after := by
  rw [splitSecond, cut_append_self hsome]
  simp only [Option.map_some, splitFirst_of_not_infix hafter]

/-- What is between the pattern and the end, when the pattern comes once, behind the character. -/
theorem splitSecond_of_once {pattern before after : List Char} {char : Char}
    (hsome : pattern ≠ []) (hchar : char ∉ pattern) (hbefore : ¬ pattern <:+: before)
    (hafter : ¬ pattern <:+: after) :
    splitSecond pattern (before ++ char :: (pattern ++ after)) = some after := by
  rw [splitSecond, cut_append_cons hchar hbefore, cut_append_self hsome]
  simp only [Option.map_some, splitFirst_of_not_infix hafter]

/-! ### White space at the ends -/

section Trim

variable (white : Char → Bool)

/-- `trim`. -/
def trimEnds (text : List Char) : List Char :=
  (text.dropWhile white).rdropWhile white

variable {white}

theorem rdropWhile_append_cons {before after : List Char} {last : Char}
    (hlast : white last = false) :
    (before ++ last :: after).rdropWhile white = before ++ last :: after.rdropWhile white := by
  induction after using List.reverseRecOn with
  | nil => rw [List.rdropWhile_concat_neg _ _ _ (by simp [hlast]), List.rdropWhile_nil]
  | append_singleton rest char ih =>
    rw [← List.cons_append, ← List.append_assoc]
    by_cases hchar : white char = true
    · rw [List.rdropWhile_concat_pos _ _ _ hchar, List.rdropWhile_concat_pos _ _ _ hchar, ih]
    · rw [List.rdropWhile_concat_neg _ _ _ hchar, List.rdropWhile_concat_neg _ _ _ hchar,
        List.append_assoc, List.cons_append]

/-- A text with something else at the end. -/
theorem rdropWhile_append_of_black (before : List Char) {tail : List Char} (hsome : tail ≠ [])
    (htail : ∀ char ∈ tail, white char = false) :
    (before ++ tail).rdropWhile white = before ++ tail := by
  obtain ⟨middle, last, rfl⟩ := List.eq_nil_or_concat'  tail |>.resolve_left hsome
  have hlast := htail last (List.mem_append_right _ (List.mem_singleton_self last))
  rw [← List.append_assoc, rdropWhile_append_cons hlast, List.rdropWhile_nil]

/-- A text behind white space. -/
theorem trimEnds_append {blanks rest : List Char} {first : Char}
    (hblanks : ∀ char ∈ blanks, white char = true) (hfirst : white first = false) :
    trimEnds white (blanks ++ first :: rest) = (first :: rest).rdropWhile white := by
  rw [trimEnds, List.dropWhile_append_of_pos hblanks, List.dropWhile_cons_of_neg (by simp [hfirst])]

theorem trimEnds_cons {char : Char} (hchar : white char = true) (text : List Char) :
    trimEnds white (char :: text) = trimEnds white text := by
  rw [trimEnds, List.dropWhile_cons_of_pos hchar, trimEnds]

/-- White space at the end makes no difference. -/
theorem trimEnds_concat {char : Char} (hchar : white char = true) (text : List Char) :
    trimEnds white (text ++ [char]) = trimEnds white text := by
  unfold trimEnds
  rw [List.dropWhile_append]
  split_ifs with hempty
  · rw [List.isEmpty_iff.mp hempty, List.dropWhile_cons_of_pos hchar, List.dropWhile_nil]
  · exact List.rdropWhile_concat_pos _ _ _ hchar

theorem trimEnds_rdropWhile (text : List Char) :
    trimEnds white (text.rdropWhile white) = trimEnds white text := by
  induction text using List.reverseRecOn with
  | nil => rw [List.rdropWhile_nil]
  | append_singleton rest char ih =>
    by_cases hchar : white char = true
    · rw [List.rdropWhile_concat_pos _ _ _ hchar, ih, trimEnds_concat hchar]
    · rw [List.rdropWhile_concat_neg _ _ _ hchar]

/-- Nothing is taken away from a text without white space. -/
theorem trimEnds_eq_self {text : List Char} (htext : ∀ char ∈ text, white char = false) :
    trimEnds white text = text := by
  cases text with
  | nil => rfl
  | cons first rest =>
    have hfirst := htext first List.mem_cons_self
    have htrim : trimEnds white (first :: rest) = (first :: rest).rdropWhile white :=
      trimEnds_append (fun _ hchar ↦ absurd hchar List.not_mem_nil) hfirst
    rw [htrim]
    exact rdropWhile_append_of_black [] (List.cons_ne_nil _ _) htext

end Trim

/-! ### Lines -/

/-- A line without the carriage return at its end. -/
def stripCr (line : List Char) : List Char :=
  (stripSuffix ['\r'] line).getD line

/-- `lines`. -/
def lines (text : List Char) : List (List Char) :=
  let pieces := text.splitOn '\n'
  pieces.dropLast.map stripCr ++ pieces.getLast?.toList.filter (· ≠ [])

/-- A text of lines that all end. -/
def ofLines (texts : List (List Char)) : List Char :=
  texts.flatMap (· ++ ['\n'])

theorem intercalate_ofLines (texts : List (List Char)) :
    List.intercalate ['\n'] (texts ++ [[]]) = ofLines texts := by
  induction texts with
  | nil => rfl
  | cons text rest ih =>
    rw [List.cons_append, List.intercalate_cons_of_ne_nil (by simp), ih]
    rfl

theorem lines_ofLines {texts : List (List Char)} (htexts : ∀ text ∈ texts, '\n' ∉ text) :
    lines (ofLines texts) = texts.map stripCr := by
  have hpieces : (ofLines texts).splitOn '\n' = texts ++ [[]] := by
    rw [← intercalate_ofLines]
    refine List.splitOn_intercalate _ (fun text htext ↦ ?_) (by simp)
    rcases List.mem_append.mp htext with hmem | hmem
    · exact htexts text hmem
    · rw [List.mem_singleton.mp hmem]
      exact List.not_mem_nil
  rw [lines, hpieces]
  simp

theorem trimEnds_stripCr {white : Char → Bool} (hwhite : white '\r' = true) (line : List Char) :
    trimEnds white (stripCr line) = trimEnds white line := by
  unfold stripCr stripSuffix stripPrefix
  split_ifs with hstart
  · obtain ⟨before, hbefore⟩ := List.isPrefixOf_iff_prefix.mp hstart
    have hline : line = before.reverse ++ ['\r'] := by
      rw [← List.reverse_reverse line, ← hbefore, List.reverse_append, List.reverse_reverse]
    rw [hline, trimEnds_concat hwhite]
    simp
  · rfl

end Text

end Tollgate
