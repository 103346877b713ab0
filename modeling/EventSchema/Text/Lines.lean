/-!
# Lines

A line ends at a line feed, and a carriage return directly before that line feed belongs to the end.
What follows the last line feed is a line of its own if it is not empty.
-/

namespace EventSchema.Text

/-- The lines of a text, without their ends. -/
def lines : List Char → List (List Char)
  | [] => []
  | c :: rest =>
    if c = '\n' then [] :: lines rest
    else if c = '\r' ∧ rest.head? = some '\n' then lines rest
    else
      match lines rest with
      | [] => [[c]]
      | first :: others => (c :: first) :: others

/-- A text has no lines exactly if it is empty. -/
theorem lines_eq_nil_iff {cs : List Char} : lines cs = [] ↔ cs = [] := by
  induction cs with
  | nil => simp [lines]
  | cons c rest ih =>
    simp only [lines]
    split
    · simp
    · split
      next h =>
        have : rest ≠ [] := by rintro rfl; simp at h
        simp [ih, this]
      next => split <;> simp

end EventSchema.Text
