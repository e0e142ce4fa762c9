import Mathlib

/-!
# Logs of lines

A file that grows a line at a time, over any type of symbols with one that ends a line. What a file
says is its lines (`lines`), and the symbols behind the last end of a line are a line too. So a line
that is appended is a new one when the file has ended the line before it and the new one ends only
at its own end, and only then (`lines_append_line_iff`).
-/

set_option autoImplicit false
set_option relaxedAutoImplicit false

namespace Tollgate

namespace LineLog

variable {α : Type*} (stop : α)

/-! ### The end of a file -/

/-- The file's last line ends. -/
def Ended (file : List α) : Prop :=
  ∀ symbol ∈ file.getLast?, symbol = stop

instance decidableEnded [DecidableEq α] : DecidablePred (Ended stop) := fun file ↦
  inferInstanceAs (Decidable (∀ symbol ∈ file.getLast?, symbol = stop))

section Ended

variable {stop}

theorem ended_nil : Ended stop [] := by
  simp [Ended]

theorem ended_singleton {symbol : α} : Ended stop [symbol] ↔ symbol = stop := by
  simp [Ended]

theorem ended_cons {symbol : α} {rest : List α} (hrest : rest ≠ []) :
    Ended stop (symbol :: rest) ↔ Ended stop rest := by
  rw [Ended, Ended, List.getLast?_cons_of_ne_nil hrest]

theorem ended_append_stop (text : List α) : Ended stop (text ++ [stop]) := by
  simp [Ended]

end Ended

/-! ### Its lines -/

variable [DecidableEq α]

/-- The lines of a file. -/
def lines : List α → List (List α)
  | [] => []
  | symbol :: rest =>
    if symbol = stop then [] :: lines rest
    else
      match lines rest with
      | [] => [[symbol]]
      | line :: more => (symbol :: line) :: more

variable {stop}

theorem lines_eq_nil_iff {file : List α} : lines stop file = [] ↔ file = [] := by
  cases file with
  | nil => simp [lines]
  | cons symbol rest =>
    rw [lines]
    split_ifs
    · simp
    · cases lines stop rest with
      | nil => simp
      | cons line more => simp

/-- Every line of a file goes up to an end. -/
theorem notMem_of_mem_lines {file line : List α} (hline : line ∈ lines stop file) :
    stop ∉ line := by
  induction file generalizing line with
  | nil => exact absurd hline List.not_mem_nil
  | cons symbol rest ih =>
    rw [lines] at hline
    split_ifs at hline with hsymbol
    · rcases List.mem_cons.mp hline with rfl | hrest
      · exact List.not_mem_nil
      · exact ih hrest
    · cases hlines : lines stop rest with
      | nil =>
        rw [hlines] at hline
        obtain rfl := List.mem_singleton.mp hline
        simpa using Ne.symm hsymbol
      | cons first more =>
        rw [hlines] at hline ih
        rcases List.mem_cons.mp hline with rfl | hmore
        · rw [List.mem_cons, not_or]
          exact ⟨Ne.symm hsymbol, ih List.mem_cons_self⟩
        · exact ih (List.mem_cons_of_mem _ hmore)

/-- The file again, from its lines; the last one ends now. -/
theorem flatMap_lines (file : List α) :
    (lines stop file).flatMap (· ++ [stop]) = if Ended stop file then file else file ++ [stop] := by
  induction file with
  | nil => simp [lines, ended_nil]
  | cons symbol rest ih =>
    by_cases hrest : rest = []
    · subst hrest
      by_cases hsymbol : symbol = stop
      · simp [lines, hsymbol, Ended]
      · simp [lines, hsymbol, Ended]
    · have hstep : (lines stop (symbol :: rest)).flatMap (· ++ [stop]) =
          symbol :: (lines stop rest).flatMap (· ++ [stop]) := by
        rw [lines]
        split_ifs with hsymbol
        · simp [hsymbol]
        · cases hlines : lines stop rest with
          | nil => exact absurd (lines_eq_nil_iff.mp hlines) hrest
          | cons line more => simp
      rw [hstep, ih]
      simp only [ended_cons hrest]
      split_ifs
      · rfl
      · rfl

/-- What comes behind a file that has ended its last line is lines of its own. -/
theorem lines_append {file : List α} (hended : Ended stop file) (more : List α) :
    lines stop (file ++ more) = lines stop file ++ lines stop more := by
  induction file with
  | nil => rfl
  | cons symbol rest ih =>
    by_cases hrest : rest = []
    · subst hrest
      obtain rfl := ended_singleton.mp hended
      simp [lines]
    · have hlines := ih ((ended_cons hrest).mp hended)
      rw [List.cons_append, lines, hlines, lines]
      split_ifs
      · rfl
      · cases hfirst : lines stop rest with
        | nil => exact absurd (lines_eq_nil_iff.mp hfirst) hrest
        | cons line others => rfl

theorem lines_line {line : List α} (hline : stop ∉ line) :
    lines stop (line ++ [stop]) = [line] := by
  induction line with
  | nil => simp [lines]
  | cons symbol rest ih =>
    rw [List.mem_cons, not_or] at hline
    rw [List.cons_append, lines, if_neg (Ne.symm hline.1), ih hline.2]

/-- Assumes: a line that starts with something. When appending it adds just one line, which is then
this one, and leaves the lines before it as they are. -/
theorem lines_append_line_iff {file entry line : List α} {symbol : α}
    (hstart : symbol ∈ entry.head?) (hsymbol : symbol ≠ stop) :
    lines stop (file ++ (entry ++ [stop])) = lines stop file ++ [line] ↔
      Ended stop file ∧ stop ∉ entry ∧ line = entry := by
  constructor
  · intro hlines
    have hmem : line ∈ lines stop (file ++ (entry ++ [stop])) := by
      rw [hlines]
      exact List.mem_append_right _ (List.mem_singleton_self _)
    have hnew : stop ∉ line := notMem_of_mem_lines hmem
    have hfile : (lines stop (file ++ (entry ++ [stop]))).flatMap (· ++ [stop]) = _ :=
      flatMap_lines _
    rw [hlines, List.flatMap_append, flatMap_lines, ← List.append_assoc,
      if_pos (ended_append_stop _), List.flatMap_singleton, ← List.append_assoc,
      List.append_left_inj] at hfile
    split_ifs at hfile with hended
    · obtain rfl := List.append_cancel_left hfile
      exact ⟨hended, hnew, rfl⟩
    · rw [List.append_assoc] at hfile
      obtain rfl := List.append_cancel_left hfile
      exact absurd (by simpa using hstart) (Ne.symm hsymbol)
  · rintro ⟨hended, hentry, rfl⟩
    rw [lines_append hended, lines_line hentry]

end LineLog

end Tollgate
