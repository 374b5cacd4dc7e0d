import Codeclew.Json.Render

/-!
# Lines of a file

A ledger is a file of lines, and a line is appended with its newline. `lines` splits at newlines and
drops what is empty; appending to a file that ends with a newline appends to its lines.
-/

namespace Codeclew

open List

/-- The lines of a file that are not empty. -/
def lines (bytes : Bytes) : List Bytes := (bytes.splitOn 10).filter (· ≠ [])

theorem lines_append_newline (a b : Bytes) : lines (a ++ 10 :: b) = lines a ++ lines b := by
  rw [lines, splitOn_append_cons_self, filter_append, lines, lines]

theorem lines_nil : lines [] = [] := by
  simp [lines]

/-- What is appended to whole lines is more lines. -/
theorem lines_append {a : Bytes} (h : a.getLast? = some 10) (b : Bytes) :
    lines (a ++ b) = lines a ++ lines b := by
  obtain ⟨a, rfl⟩ := List.getLast?_eq_some_iff.mp h
  rw [append_assoc, singleton_append, lines_append_newline, lines_append_newline,
    lines_nil, append_nil]

theorem lines_line {line : Bytes} (h : 10 ∉ line) (hne : line ≠ []) :
    lines (line ++ [10]) = [line] := by
  rw [lines_append_newline, lines_nil, append_nil, lines, splitOn_eq_singleton h]
  simp [hne]

end Codeclew
