import EventSchema.TypeScript.Comment

/-!
# Block comments end at their closer

A reader that leaves a comment at the first closer leaves it at the one that was written for it,
whatever the text of the comment is.

* `infix_of_mem_lines` — a line is a part of its text;
* `not_closer_breakCloser` — a text that was broken up holds no closer;
* `docComment_eq` — so a comment holds none between its two ends;
* `afterCloser_append` — what follows the first closer is what follows a text that holds none.
-/

namespace EventSchema.Text

/-! ## Parts of a text -/

/-- The first line of a text stands at its start. -/
theorem prefix_of_lines_eq_cons {cs first : List Char} {others : List (List Char)}
    (h : lines cs = first :: others) : first <+: cs := by
  induction cs generalizing first others with
  | nil => cases h
  | cons c rest ih =>
    simp only [lines] at h
    split at h
    · cases h
      exact List.nil_prefix
    · split at h
      · next hreturn =>
        obtain ⟨rest', rfl⟩ := List.head?_eq_some_iff.1 hreturn.2
        rw [lines, if_pos rfl] at h
        cases h
        exact List.nil_prefix
      · split at h
        · cases h
          exact List.prefix_append [c] rest
        · next hrest =>
          cases h
          exact List.cons_prefix_cons.2 ⟨rfl, ih hrest⟩

/-- A line of a text starts the text or is a line of the rest. -/
theorem prefix_or_mem_of_mem_lines {c : Char} {rest line : List Char}
    (h : line ∈ lines (c :: rest)) : line <+: c :: rest ∨ line ∈ lines rest := by
  cases hlines : lines (c :: rest) with
  | nil => simp [hlines] at h
  | cons first others =>
    have hfirst := prefix_of_lines_eq_cons hlines
    have hothers : ∀ other ∈ others, other ∈ lines rest := by
      rw [lines] at hlines
      split at hlines
      · simp_all
      · split at hlines
        · simp_all
        · split at hlines <;> simp_all
    rw [hlines] at h
    rcases List.mem_cons.1 h with rfl | h
    · exact .inl hfirst
    · exact .inr (hothers line h)

/-- A line is a part of its text. -/
theorem infix_of_mem_lines {cs : List Char} : ∀ line ∈ lines cs, line <:+: cs := by
  induction cs with
  | nil => simp [lines]
  | cons c rest ih =>
    intro line hline
    rcases prefix_or_mem_of_mem_lines hline with h | h
    · exact h.isInfix
    · exact List.infix_cons (ih line h)

/-- A text without the blanks at its end is the start of the text. -/
theorem prefix_trimEnd (cs : List Char) : trimEnd cs <+: cs := by
  rw [trimEnd, ← List.reverse_suffix, List.reverse_reverse]
  exact List.dropWhile_suffix _

end EventSchema.Text

namespace EventSchema.TypeScript

open Text

/-! ## Closers -/

/-- The characters that close a block comment. -/
def closer : List Char := ['*', '/']

/-- No closer goes across another character. -/
theorem closer_infix_append {a b : List Char} {c : Char} (hc : c ∉ closer) :
    closer <:+: a ++ c :: b ↔ closer <:+: a ∨ closer <:+: b := by
  have hstar : c ≠ '*' := by
    rintro rfl
    exact hc (by decide)
  have hslash : c ≠ '/' := by
    rintro rfl
    exact hc (by decide)
  constructor
  · intro h
    rcases List.infix_append_iff.1 h with h | h | ⟨left, right, hsplit, hleft, hright⟩
    · exact .inl h
    · rcases List.infix_cons_iff.1 h with h | h
      · exact absurd (List.cons_prefix_cons.1 h).1.symm hstar
      · exact .inr h
    · match left, hsplit with
      | [], hsplit =>
        cases hsplit
        exact absurd (List.cons_prefix_cons.1 hright).1.symm hstar
      | [_], hsplit =>
        cases hsplit
        exact absurd (List.cons_prefix_cons.1 hright).1.symm hslash
      | [_, _], hsplit =>
        cases hsplit
        exact .inl hleft.isInfix
  · rintro (h | h)
    · exact h.trans (List.prefix_append a _).isInfix
    · exact (List.infix_cons h).trans (List.suffix_append a _).isInfix

/-- Nor does one begin with another character. -/
theorem closer_infix_cons {cs : List Char} {c : Char} (hc : c ∉ closer) :
    closer <:+: c :: cs ↔ closer <:+: cs := by
  have h := closer_infix_append (a := []) (b := cs) hc
  simpa [closer] using h

/-- Blanks in front of a text make no closer. -/
theorem closer_infix_blanks {n : Nat} {cs : List Char} :
    closer <:+: List.replicate n ' ' ++ cs ↔ closer <:+: cs := by
  induction n with
  | zero => rfl
  | succ n ih =>
    rw [List.replicate_succ, List.cons_append, closer_infix_cons (by decide)]
    exact ih

/-- Nor do blanks behind it. -/
theorem closer_infix_append_blanks {n : Nat} {cs : List Char} :
    closer <:+: cs ++ List.replicate n ' ' ↔ closer <:+: cs := by
  cases n with
  | zero => rw [List.replicate_zero, List.append_nil]
  | succ n =>
    have hblanks : closer <:+: List.replicate n ' ' ++ [] ↔ closer <:+: [] := closer_infix_blanks
    rw [List.append_nil] at hblanks
    rw [List.replicate_succ, closer_infix_append (by decide), hblanks]
    simp [closer]

/-- A text and the text that is broken up start alike. -/
theorem head?_breakCloser (cs : List Char) : (breakCloser cs).head? = cs.head? := by
  fun_cases breakCloser cs <;> rfl

/-- A text that was broken up holds no closer. -/
theorem not_closer_breakCloser (cs : List Char) : ¬ closer <:+: breakCloser cs := by
  fun_induction breakCloser cs with
  | case1 rest ih =>
    intro h
    rcases (closer_infix_append (a := ['*']) (by decide : '\\' ∉ closer)).1 h with h | h
    · exact absurd h (by decide)
    · rcases List.infix_cons_iff.1 h with h | h
      · exact absurd (List.cons_prefix_cons.1 h).1 (by decide)
      · exact ih h
  | case2 c rest hclose ih =>
    intro h
    rcases List.infix_cons_iff.1 h with h | h
    · obtain ⟨hstar, tail, hslash⟩ := List.cons_prefix_cons.1 h
      have hhead : rest.head? = some '/' := by
        rw [← head?_breakCloser, ← hslash]
        rfl
      obtain ⟨rest', hrest⟩ := List.head?_eq_some_iff.1 hhead
      exact hclose rest' hstar.symm hrest
    · exact ih h
  | case3 => decide

/-! ## Comments -/

/-- A line of a comment holds no closer if its text holds none. -/
theorem docLine_eq {line : List Char} (h : ¬ closer <:+: line) (indent : Nat) :
    ∃ written, ¬ closer <:+: written ∧ docLine indent line = written ++ ['\n'] := by
  have htrim : ¬ closer <:+: trimEnd line := fun hin =>
    h (hin.trans (prefix_trimEnd line).isInfix)
  unfold docLine
  split
  · exact ⟨pad indent ++ " *".toList, by rw [pad, closer_infix_blanks]; decide, by simp⟩
  · refine ⟨pad indent ++ " * ".toList ++ trimEnd line, ?_, by simp⟩
    rw [List.append_assoc, pad, closer_infix_blanks]
    intro hin
    rcases (closer_infix_append (a := " *".toList) (by decide : ' ' ∉ closer)).1 hin with hin | hin
    · exact absurd hin (by decide)
    · exact htrim hin

/-- The lines of a comment hold no closer if their texts hold none. -/
theorem not_closer_docLines {texts : List (List Char)} (h : ∀ line ∈ texts, ¬ closer <:+: line)
    (indent : Nat) : ¬ closer <:+: texts.flatMap (docLine indent) := by
  induction texts with
  | nil => exact (by decide : ¬ closer <:+: [])
  | cons line texts ih =>
    obtain ⟨written, hwritten, hline⟩ := docLine_eq (h line List.mem_cons_self) indent
    rw [List.flatMap_cons, hline, List.append_assoc, List.singleton_append,
      closer_infix_append (by decide)]
    rintro (hin | hin)
    · exact hwritten hin
    · exact ih (fun line hline => h line (List.mem_cons_of_mem _ hline)) hin

/-- A comment stands between its two ends, and there is no closer in between, not even with the end
of the opener. -/
theorem docComment_eq (indent : Nat) (text : List Char) :
    docComment indent text = [] ∨ ∃ body, ¬ closer <:+: "/**".toList ++ body ∧
      docComment indent text = pad indent ++ "/**".toList ++ body ++ " */\n".toList := by
  have hfree : ∀ line ∈ lines (breakCloser (trim text)), ¬ closer <:+: line :=
    fun line hline hin => not_closer_breakCloser _ (hin.trans (infix_of_mem_lines line hline))
  have hopener : ¬ closer <:+: "/**".toList := by decide
  unfold docComment
  split
  · exact .inl rfl
  · next line hlines =>
    refine .inr ⟨' ' :: line, ?_, by simp⟩
    rw [closer_infix_append (by decide), not_or]
    exact ⟨hopener, hfree line (by simp [hlines])⟩
  · have hlines := not_closer_docLines hfree indent
    refine .inr ⟨'\n' :: (lines (breakCloser (trim text))).flatMap (docLine indent) ++ pad indent,
      ?_, by simp⟩
    rw [List.cons_append, closer_infix_append (by decide), pad, closer_infix_append_blanks, not_or]
    exact ⟨hopener, hlines⟩

/-- What follows the first closer of a text. -/
def afterCloser : List Char → List Char
  | '*' :: '/' :: rest => rest
  | _ :: rest => afterCloser rest
  | [] => []

/-- The first closer is the one that stands behind a text without closers. -/
theorem afterCloser_append {body : List Char} (h : ¬ closer <:+: body) (rest : List Char) :
    afterCloser (body ++ ' ' :: '*' :: '/' :: rest) = rest := by
  induction body with
  | nil => rfl
  | cons c body ih =>
    rw [List.cons_append, afterCloser]
    · exact ih fun hin => h (List.infix_cons hin)
    · rintro rest' rfl hslash
      cases body with
      | nil => cases hslash
      | cons d body =>
        cases hslash
        exact h ⟨[], body, rfl⟩

end EventSchema.TypeScript
