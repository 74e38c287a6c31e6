import CacheDelay.Text.Split
import Mathlib.Data.List.Basic

/-!
# Lines

A line feed ends a line wherever it stands, and what follows it is cut into lines on its own
(`lines_append_newline`), so that a line can be put into a text where another one begins
(`lines_insert`).
-/

namespace CacheDelay.Text

theorem linesOfPieces_append (pieces : List (List Char)) {rest : List (List Char)}
    (h : rest ≠ []) :
    linesOfPieces (pieces ++ rest) = pieces.map dropReturn ++ linesOfPieces rest := by
  induction pieces with
  | nil => rfl
  | cons piece pieces ih =>
    rw [List.map_cons, List.cons_append, List.cons_append, ← ih]
    cases hnext : pieces ++ rest with
    | nil => exact absurd (List.append_eq_nil_iff.1 hnext).2 h
    | cons next more => rfl

theorem lines_append_newline (front back : List Char) :
    lines (front ++ '\n' :: back) = (front.splitOn '\n').map dropReturn ++ lines back := by
  rw [lines, List.splitOn_append_cons_self, linesOfPieces_append _ (List.splitOn_ne_nil _ _), lines]

/-- What follows the text begins a new line. -/
def EndsLine (front : List Char) : Prop := front = [] ∨ front.getLast? = some '\n'

/-- A text behind whole lines has its own lines. -/
theorem EndsLine.lines_append {front : List Char} (h : EndsLine front) (back : List Char) :
    lines (front ++ back) = lines front ++ lines back := by
  rcases h with rfl | hlast
  · rfl
  · obtain ⟨before, rfl⟩ := List.getLast?_eq_some_iff.1 hlast
    rw [List.append_assoc, List.singleton_append, lines_append_newline, lines_append_newline]
    have hnil : lines [] = [] := rfl
    rw [hnil, List.append_nil]

theorem lines_of_not_mem {line : List Char} (h : '\n' ∉ line) :
    lines (line ++ ['\n']) = [dropReturn line] := by
  rw [lines_append_newline, List.splitOn_eq_singleton h]
  rfl

/-- A line can be put into a text where another one begins. -/
theorem lines_insert {front line : List Char} (hfront : EndsLine front) (hline : '\n' ∉ line)
    (back : List Char) : lines (front ++ line ++ '\n' :: back) =
      lines front ++ dropReturn line :: lines back := by
  have hends : EndsLine (line ++ ['\n']) := .inr List.getLast?_concat
  have htext : front ++ line ++ '\n' :: back = front ++ (line ++ ['\n'] ++ back) := by simp
  rw [htext, hfront.lines_append, hends.lines_append, lines_of_not_mem hline, List.singleton_append]

end CacheDelay.Text
