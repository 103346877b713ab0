/-!
# Blank characters

What a generated module regards as blank: the characters with the Unicode property `White_Space`.

* `isBlank` — membership in the table of these characters;
* `trimStart`, `trimEnd`, `trim` — a text without the blanks at its ends.
-/

namespace EventSchema.Text

/-- The characters with the Unicode property `White_Space`, in code point order. -/
def blanks : List Char :=
  ['\t', '\n', '\x0b', '\x0c', '\r', ' ', '\u0085', '\u00a0', '\u1680', '\u2000', '\u2001',
    '\u2002', '\u2003', '\u2004', '\u2005', '\u2006', '\u2007', '\u2008', '\u2009', '\u200a',
    '\u2028', '\u2029', '\u202f', '\u205f', '\u3000']

/-- A blank is a character of the table. -/
def isBlank (c : Char) : Bool := blanks.contains c

/-- A text from its first character that is not blank on. -/
def trimStart (cs : List Char) : List Char := cs.dropWhile isBlank

/-- A text up to its last character that is not blank. -/
def trimEnd (cs : List Char) : List Char := (cs.reverse.dropWhile isBlank).reverse

/-- A text without the blanks at its two ends. -/
def trim (cs : List Char) : List Char := trimEnd (trimStart cs)

/-- Nothing is left at the start of a text exactly if all of it is blank. -/
theorem trimStart_eq_nil_iff {cs : List Char} : trimStart cs = [] ↔ ∀ c ∈ cs, isBlank c = true := by
  induction cs with
  | nil => simp [trimStart]
  | cons c rest ih =>
    simp only [trimStart] at ih
    cases h : isBlank c <;> simp [trimStart, h, ih]

/-- Nothing is left at the end of a text exactly if all of it is blank. -/
theorem trimEnd_eq_nil_iff {cs : List Char} : trimEnd cs = [] ↔ ∀ c ∈ cs, isBlank c = true := by
  rw [trimEnd, List.reverse_eq_nil_iff]
  exact trimStart_eq_nil_iff.trans (by simp only [List.mem_reverse])

/-- Nothing is left between the two ends of a text exactly if all of it is blank. -/
theorem trim_eq_nil_iff {cs : List Char} : trim cs = [] ↔ ∀ c ∈ cs, isBlank c = true := by
  rw [trim, trimEnd_eq_nil_iff, ← trimStart_eq_nil_iff, ← @trimStart_eq_nil_iff cs]
  -- what `trimStart` leaves starts with no blank
  have hhead := List.head?_dropWhile_not isBlank cs
  rw [← trimStart] at hhead
  cases h : trimStart cs with
  | nil => exact iff_of_true rfl rfl
  | cons c rest =>
    rw [h] at hhead
    have hc : isBlank c = false := hhead
    refine iff_of_false ?_ (List.cons_ne_nil _ _)
    rw [trimStart, List.dropWhile_cons_of_neg (by rw [hc]; exact Bool.false_ne_true)]
    exact List.cons_ne_nil _ _

end EventSchema.Text
