import Mathlib.Data.List.Basic

/-!
# The lines of a text

A line feed ends the line before it. What stands behind the last line feed is a line as well, unless
nothing does. So texts that end with a line feed can be put in a row, and the lines of the row are those
of its parts, whatever line feeds are inside them.
-/

namespace PostfixSpec.Text

/-- The lines of a text, without the line feeds that end them. -/
def lines : List Char → List (List Char)
  | [] => []
  | c :: cs =>
    if c = '\n' then [] :: lines cs
    else match lines cs with
      | [] => [[c]]
      | line :: rest => (c :: line) :: rest

theorem lines_eq_nil_iff {cs : List Char} : lines cs = [] ↔ cs = [] := by
  cases cs with
  | nil => exact iff_of_true rfl rfl
  | cons c cs =>
      refine iff_of_false ?_ (List.cons_ne_nil c cs)
      rw [lines]
      split
      · exact List.cons_ne_nil _ _
      · split <;> exact List.cons_ne_nil _ _

/-- Only the empty text has no last line. -/
theorem eq_empty_iff_of_getLast?_lines {s t : String}
    (h : (lines s.toList).getLast? = (lines t.toList).getLast?) : s = "" ↔ t = "" := by
  rw [← String.toList_eq_nil_iff, ← String.toList_eq_nil_iff, ← lines_eq_nil_iff,
    ← List.getLast?_eq_none_iff, h, List.getLast?_eq_none_iff, lines_eq_nil_iff]

/-- A line feed keeps the lines before it apart from those behind it. -/
theorem lines_append (cs ds : List Char) :
    lines (cs ++ '\n' :: ds) = lines (cs ++ ['\n']) ++ lines ds := by
  induction cs with
  | nil => rfl
  | cons c cs ih =>
      rw [List.cons_append, List.cons_append, lines, lines, ih]
      split_ifs
      · rfl
      · -- The line that `c` begins ends before `ds`, so it is there already.
        cases hlines : lines (cs ++ ['\n']) with
        | nil => simp [lines_eq_nil_iff] at hlines
        | cons line rest => rfl

example : lines "a\n\nb".toList = ["a".toList, [], "b".toList] := by decide

end PostfixSpec.Text
