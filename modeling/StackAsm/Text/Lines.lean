/-!
# StackAsm.Text.Lines

The lines of a text.

A line ends at a line feed; one carriage return right before that line feed belongs to the line end.
A last line without a line feed keeps its carriage returns, and there is no empty line after the
last line feed.
-/

namespace StackAsm.Text

/-- Drops one carriage return at the end. -/
def dropCarriageReturn (cs : List Char) : List Char :=
  if cs.getLast? = some '\r' then cs.dropLast else cs

/-- The lines of a text, without their ends. -/
def lineChars (cs : List Char) : List (List Char) :=
  let parts := cs.splitOn '\n'
  let last := parts.getLast?.getD []
  parts.dropLast.map dropCarriageReturn ++ if last = [] then [] else [last]

/-- The lines of a string, without their ends. -/
def lines (s : String) : List String := (lineChars s.toList).map String.ofList

/-- A line feed ends a line, whatever comes after it. -/
theorem lineChars_cons_feed {line : List Char} (h : '\n' ∉ line) (rest : List Char) :
    lineChars (line ++ '\n' :: rest) = dropCarriageReturn line :: lineChars rest := by
  have hne : rest.splitOn '\n' ≠ [] := List.splitOn_ne_nil _ _
  obtain ⟨part, parts, hparts⟩ := List.exists_cons_of_ne_nil hne
  simp only [lineChars, List.splitOn_append_cons_self_of_not_mem h, hparts]
  simp [List.getLast?_cons_cons]

end StackAsm.Text
