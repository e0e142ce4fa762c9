import Mathlib

/-!
# Maximal periods of a trace

A trace of marks, each inside a period or outside of one, some carrying a time. Cutting the trace at
the marks outside gives its maximal periods; `span` is the time from the first to the last timed
mark of one period, and `total` the sum over all of them. The lemmas say how `total` grows when a
mark is put in front of a trace, which is how a program that only looks at one event at a time adds
it up.
-/

set_option autoImplicit false
set_option relaxedAutoImplicit false

namespace Periods

/-- One mark of a trace. -/
structure Mark where
  inside : Bool
  time : Option ℕ
  deriving DecidableEq, Repr

/-- The maximal runs of marks inside a period. -/
def periods (marks : List Mark) : List (List Mark) :=
  marks.splitOnP fun mark ↦ !mark.inside

/-- The times of a list of marks. -/
def times (marks : List Mark) : List ℕ :=
  marks.filterMap Mark.time

/-- The time from the first to the last timed mark. -/
def span (marks : List Mark) : ℕ :=
  (times marks).getLast?.getD 0 - (times marks).head?.getD 0

/-- The time spanned by all the periods of a trace. -/
def total (marks : List Mark) : ℕ :=
  ((periods marks).map span).sum

@[simp] theorem total_nil : total [] = 0 := rfl

/-- A mark outside ends a period and belongs to none. -/
theorem total_outside {mark : Mark} (hmark : mark.inside = false) (rest : List Mark) :
    total (mark :: rest) = total rest := by
  unfold total periods
  rw [List.splitOnP_cons_eq_if_modifyHead, if_pos (by simp [hmark]), List.map_cons, List.sum_cons]
  simp [span, times]

/-- A mark inside belongs to the first period of what follows. -/
theorem periods_inside {mark : Mark} (hmark : mark.inside = true) {rest first : List Mark}
    {others : List (List Mark)} (hrest : periods rest = first :: others) :
    periods (mark :: rest) = (mark :: first) :: others := by
  unfold periods at hrest ⊢
  rw [List.splitOnP_cons_eq_if_modifyHead, hrest, if_neg (by simp [hmark])]
  rfl

theorem exists_first (rest : List Mark) :
    ∃ first others, periods rest = first :: others ∧ ∀ mark ∈ first, mark ∈ rest := by
  induction rest with
  | nil => exact ⟨[], [], rfl, fun mark hmark ↦ hmark⟩
  | cons head tail ih =>
    obtain ⟨first, others, hperiods, hmem⟩ := ih
    by_cases hinside : head.inside = true
    · refine ⟨head :: first, others, periods_inside hinside hperiods, fun mark hmark ↦ ?_⟩
      rcases List.mem_cons.mp hmark with rfl | hmark
      · exact List.mem_cons_self
      · exact List.mem_cons_of_mem _ (hmem mark hmark)
    · refine ⟨[], periods tail, ?_, fun mark hmark ↦ absurd hmark List.not_mem_nil⟩
      unfold periods
      rw [List.splitOnP_cons_eq_if_modifyHead, if_pos (by simp [hinside])]

theorem total_eq {marks first : List Mark} {others : List (List Mark)}
    (hmarks : periods marks = first :: others) :
    total marks = span first + (others.map span).sum := by
  rw [total, hmarks, List.map_cons, List.sum_cons]

/-- A mark inside without a time adds nothing. -/
theorem total_untimed {mark : Mark} (hinside : mark.inside = true) (htime : mark.time = none)
    (rest : List Mark) : total (mark :: rest) = total rest := by
  obtain ⟨first, others, hfirst, -⟩ := exists_first rest
  have htimes : times (mark :: first) = times first := by
    simp [times, htime]
  rw [total_eq (periods_inside hinside hfirst), total_eq hfirst, span, span, htimes]

/-- A mark without a time behind one with a time adds nothing either. -/
theorem total_timed_untimed {timed untimed : Mark} (htimed : timed.inside = true)
    (hinside : untimed.inside = true) (htime : untimed.time = none) (rest : List Mark) :
    total (timed :: untimed :: rest) = total (timed :: rest) := by
  obtain ⟨first, others, hfirst, -⟩ := exists_first rest
  have htimes : times (timed :: untimed :: first) = times (timed :: first) := by
    simp [times, List.filterMap_cons, htime]
  rw [total_eq (periods_inside htimed (periods_inside hinside hfirst)),
    total_eq (periods_inside htimed hfirst), span, span, htimes]

/-- A timed mark that ends its period adds nothing. -/
theorem total_timed_last {mark : Mark} (hinside : mark.inside = true) {rest : List Mark}
    (hlast : ∀ next ∈ rest.head?, next.inside = false) : total (mark :: rest) = total rest := by
  obtain ⟨first, others, hfirst, -⟩ := exists_first rest
  have hempty : first = [] := by
    cases rest with
    | nil => exact (List.cons.inj hfirst).1.symm
    | cons next later =>
      have hnext : next.inside = false := hlast next rfl
      unfold periods at hfirst
      rw [List.splitOnP_cons_eq_if_modifyHead, if_pos (by simp [hnext])] at hfirst
      exact (List.cons.inj hfirst).1.symm
  rw [total_eq (periods_inside hinside hfirst), total_eq hfirst, hempty]
  cases htime : mark.time <;> simp [span, times, htime]

/-- Assumes: two timed marks in order, and no earlier time behind them. The first adds the time to
the second. -/
theorem total_timed_timed {earlier later : Mark} {before after : ℕ}
    (hearlier : earlier.inside = true) (hlater : later.inside = true)
    (hbefore : earlier.time = some before) (hafter : later.time = some after)
    (hle : before ≤ after) {rest : List Mark}
    (hrest : ∀ mark ∈ rest, ∀ time, mark.time = some time → after ≤ time) :
    total (earlier :: later :: rest) = (after - before) + total (later :: rest) := by
  obtain ⟨first, others, hfirst, hmem⟩ := exists_first rest
  -- The last time of the period is that of the later mark or one behind it.
  have hlast : ∃ last, (times (later :: first)).getLast? = some last ∧ after ≤ last := by
    have hne : times (later :: first) ≠ [] := by simp [times, hafter]
    refine ⟨_, List.getLast?_eq_some_getLast hne, ?_⟩
    obtain ⟨mark, hmark, htime⟩ := List.mem_filterMap.mp (List.getLast_mem hne)
    rcases List.mem_cons.mp hmark with rfl | hmark
    · rw [hafter] at htime
      exact le_of_eq (Option.some.inj htime)
    · exact hrest mark (hmem mark hmark) _ htime
  obtain ⟨last, hlast, hbound⟩ := hlast
  have hspan : span (later :: first) = last - after := by
    rw [span, hlast]
    simp [times, hafter]
  have hspan' : span (earlier :: later :: first) = last - before := by
    have htimes : times (earlier :: later :: first) = before :: times (later :: first) := by
      simp [times, hbefore]
    rw [span, htimes, List.getLast?_cons, hlast]
    simp
  rw [total_eq (periods_inside hearlier (periods_inside hlater hfirst)),
    total_eq (periods_inside hlater hfirst), hspan, hspan']
  omega

end Periods
