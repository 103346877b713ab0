import EventSchema.Proofs.Lexemes
import EventSchema.TypeScript.Module

/-!
# Comments of declarations

Titles and descriptions stand in block comments in front of the declarations of a module. A comment
has one closer, at its end, so that a reader who leaves it at the first closer goes on with the
declaration, whatever the title and the description are.

* `docComment_eq_nil_iff` — a text gives no comment exactly if it is blank;
* `ClosedOnce` — a comment that is closed at its end and nowhere else;
* `closedOnce_docComment` — every comment is;
* `afterDoc` — what a reader finds behind the comment at the start of a text;
* `afterDoc_docComment` — it is the text that was written behind the comment;
* `afterDoc_renderProperties`, `afterDoc_block`, `afterDoc_factoryDeclaration` — so for the comments
  of properties, of events and of the functions that build events.
-/

namespace EventSchema.TypeScript

open Text

variable {indent : Nat} {text rest : List Char}

/-! ## Texts without a comment -/

/-- A text that is broken up stays empty if it is, and only then. -/
theorem breakCloser_eq_nil_iff {cs : List Char} : breakCloser cs = [] ↔ cs = [] := by
  rw [← List.head?_eq_none_iff, head?_breakCloser, List.head?_eq_none_iff]

/-- A text gives no comment exactly if it is blank. -/
theorem docComment_eq_nil_iff : docComment indent text = [] ↔ ∀ c ∈ text, isBlank c = true := by
  have hlines : lines (breakCloser (trim text)) = [] ↔ ∀ c ∈ text, isBlank c = true := by
    rw [lines_eq_nil_iff, breakCloser_eq_nil_iff, trim_eq_nil_iff]
  rw [← hlines, docComment]
  split
  · next h => exact iff_of_true rfl h
  · next h => exact iff_of_false (by simp) (by rw [h]; exact List.cons_ne_nil _ _)
  · next hnil _ => exact iff_of_false (by simp) hnil

/-! ## The closer of a comment -/

/-- A text with a closer at its end has no other one if there is none in front of it. -/
theorem eq_of_append_closer {front before after : List Char} (h : ¬ closer <:+: front)
    (hsplit : front ++ [' ', '*', '/', '\n'] = before ++ '*' :: '/' :: after) : after = ['\n'] := by
  rcases List.append_eq_append_iff.1 hsplit with ⟨more, -, hmore⟩ | ⟨more, hfront, hmore⟩
  · -- a closer in the end is the one that is written there
    rcases more with _ | ⟨_, _ | ⟨_, _ | ⟨_, _ | ⟨_, more⟩⟩⟩⟩ <;> simp_all
  · -- one that starts in front of the end would have to go across the blank
    rcases more with _ | ⟨_, _ | ⟨_, more⟩⟩
    · cases hmore
    · cases hmore
    · cases hmore
      exact absurd ⟨before, more, by rw [hfront]; simp [closer]⟩ h

/-- A comment at an indent: it starts with the opener and ends with a closer and a line break, and
there is no other closer in it. -/
structure ClosedOnce (indent : Nat) (written : List Char) : Prop where
  /-- the opener stands behind the indentation -/
  opens : pad indent ++ "/**".toList <+: written
  /-- the closer stands in front of the line break -/
  closes : closer ++ ['\n'] <:+ written
  /-- nothing but the line break follows any closer -/
  once : ∀ before after, written = before ++ (closer ++ after) → after = ['\n']

/-- A comment is closed at its end, and nowhere else. -/
theorem closedOnce_docComment (h : docComment indent text ≠ []) :
    ClosedOnce indent (docComment indent text) := by
  obtain ⟨body, hbody, htext⟩ := (docComment_eq indent text).resolve_left h
  have hend : " */\n".toList = [' '] ++ (closer ++ ['\n']) := rfl
  rw [htext]
  refine ⟨?_, ?_, fun before after hsplit => ?_⟩
  · rw [List.append_assoc]
    exact List.prefix_append _ _
  · rw [hend, ← List.append_assoc]
    exact List.suffix_append _ _
  · have hfront : ¬ closer <:+: pad indent ++ "/**".toList ++ body := by
      rwa [List.append_assoc, pad, closer_infix_blanks]
    exact eq_of_append_closer hfront hsplit

example : docComment 1 "ends */ early\n \nor **/".toList =
    "  /**\n   * ends *\\/ early\n   *\n   * or **\\/\n   */\n".toList := by
  decide

/-! ## Behind a comment -/

/-- What a reader finds behind the comment that a text starts with: he leaves the comment at its
first closer, and the line with it. A text that does not start with a comment is read as it is. -/
def afterDoc (cs : List Char) : List Char :=
  match cs.dropWhile (· = ' ') with
  | '/' :: '*' :: inside => (afterCloser inside).tail
  | _ => cs

/-- Blanks in front of a line are passed over. -/
theorem dropWhile_pad (indent : Nat) (cs : List Char) :
    (pad indent ++ cs).dropWhile (· = ' ') = cs.dropWhile (· = ' ') := by
  refine List.dropWhile_append_of_pos fun c hc => ?_
  rw [List.eq_of_mem_replicate hc]
  rfl

/-- A line is read as it is unless it starts with a slash. -/
theorem afterDoc_eq_self {c : Char} (hblank : c ≠ ' ') (hslash : c ≠ '/') (indent : Nat)
    (cs : List Char) : afterDoc (pad indent ++ c :: cs) = pad indent ++ c :: cs := by
  have hdrop : (pad indent ++ c :: cs).dropWhile (· = ' ') = c :: cs := by
    rw [dropWhile_pad, List.dropWhile_cons_of_neg (by simpa using hblank)]
  rw [afterDoc, hdrop]
  split
  · next hcons => exact absurd (List.cons.inj hcons).1 hslash
  · rfl

/-- A comment is passed over as a whole, whatever its text is. -/
theorem afterDoc_docComment (h : afterDoc rest = rest) :
    afterDoc (docComment indent text ++ rest) = rest := by
  rcases docComment_eq indent text with hnil | ⟨body, hbody, htext⟩
  · rwa [hnil]
  · have hinside : ¬ closer <:+: '*' :: '*' :: body := fun hin =>
      hbody (hin.trans (List.suffix_cons '/' _).isInfix)
    have hbody' : ¬ closer <:+: '*' :: body := fun hin =>
      hinside (hin.trans (List.suffix_cons '*' _).isInfix)
    have hdrop : (docComment indent text ++ rest).dropWhile (· = ' ') =
        '/' :: '*' :: ('*' :: body ++ ' ' :: '*' :: '/' :: '\n' :: rest) := by
      rw [htext, List.append_assoc, List.append_assoc, List.append_assoc, dropWhile_pad]
      rfl
    rw [afterDoc, hdrop]
    exact congrArg List.tail (afterCloser_append hinside ('\n' :: rest))

/-! ## Declarations -/

/-- Behind the comment of a property stands its line, and the other properties follow. -/
theorem afterDoc_renderProperties (indent : Nat) (m : Member) (t : TypeExpr)
    (properties : List (Member × TypeExpr)) (rest : List Char) :
    afterDoc (TypeExpr.renderProperties indent ((m, t) :: properties) ++ rest) =
      memberLine indent m.key (t.render indent) ++
        (TypeExpr.renderProperties indent properties ++ rest) := by
  generalize hline : memberLine indent m.key (t.render indent) ++
    (TypeExpr.renderProperties indent properties ++ rest) = line
  have hself : afterDoc line = line := by
    obtain ⟨c, key, hkey, hc⟩ := key_eq_cons m
    have hblank : c ≠ ' ' := by
      rintro rfl
      revert hc
      decide
    have hslash : c ≠ '/' := by
      rintro rfl
      revert hc
      decide
    rw [← hline, memberLine, hkey]
    simp only [List.append_assoc, List.cons_append]
    exact afterDoc_eq_self hblank hslash indent _
  rw [TypeExpr.renderProperties, List.append_assoc, List.append_assoc, hline, Member.comment]
  split
  · exact afterDoc_docComment hself
  · exact hself

/-- A declaration that is exported is read as it is. -/
theorem afterDoc_export (cs : List Char) :
    afterDoc ("export ".toList ++ cs) = "export ".toList ++ cs :=
  afterDoc_eq_self (by decide) (by decide) 0 ("xport ".toList ++ cs)

/-- The declaration of properties is exported. -/
theorem propertiesDeclaration_eq (name : List Char) (type : TypeExpr) :
    ∃ cs, propertiesDeclaration name type = "export ".toList ++ cs := by
  unfold propertiesDeclaration
  split <;> simp only [List.append_assoc]
  · exact ⟨"interface ".toList ++ _, rfl⟩
  · exact ⟨"type ".toList ++ _, rfl⟩

/-- Behind the comment of an event stand its declarations, that of its properties first. -/
theorem afterDoc_block (options : ModuleOptions) (event : Event) (names : EventNames) :
    afterDoc (block options event names).tail =
      propertiesDeclaration names.propertiesType.toList (lower event.schema) ++
        '\n' :: eventDeclaration options event names ++
        '\n' :: factoryDeclaration options event names := by
  obtain ⟨cs, hcs⟩ := propertiesDeclaration_eq names.propertiesType.toList (lower event.schema)
  simp only [block, List.cons_append, List.tail_cons, List.append_assoc, hcs]
  exact afterDoc_docComment (afterDoc_export _)

/-- Behind the comment of the function that builds an event stands the function. -/
theorem afterDoc_factoryDeclaration (options : ModuleOptions) (event : Event)
    (names : EventNames) :
    factoryDeclaration options event names =
        docComment 0
            ("Build a ".toList ++ (Quoted.quote event.title).toList ++ " event.".toList) ++
          afterDoc (factoryDeclaration options event names) ∧
      "export const ".toList ++ names.factory.toList <+:
        afterDoc (factoryDeclaration options event names) := by
  obtain ⟨code, hcode⟩ : ∃ code, factoryDeclaration options event names =
      docComment 0 ("Build a ".toList ++ (Quoted.quote event.title).toList ++ " event.".toList) ++
        ("export const ".toList ++ names.factory.toList ++ code) := by
    simp only [factoryDeclaration, List.append_assoc]
    exact ⟨_, rfl⟩
  have hafter : afterDoc (factoryDeclaration options event names) =
      "export const ".toList ++ names.factory.toList ++ code := by
    rw [hcode]
    exact afterDoc_docComment (afterDoc_export _)
  rw [hafter]
  exact ⟨hcode, List.prefix_append _ _⟩

/-- A text gives no comment exactly if it is blank, and otherwise a comment that is closed at its
end and nowhere else. So the comments of properties, of events and of the functions that build them
end where the declarations start, whatever the titles and the descriptions are. -/
theorem docComments_closed :
    (∀ indent text,
      (docComment indent text = [] ↔ ∀ c ∈ text, isBlank c = true) ∧
        (docComment indent text = [] ∨ ClosedOnce indent (docComment indent text))) ∧
    (∀ indent m t properties rest,
      afterDoc (TypeExpr.renderProperties indent ((m, t) :: properties) ++ rest) =
        memberLine indent m.key (t.render indent) ++
          (TypeExpr.renderProperties indent properties ++ rest)) ∧
    ∀ options event names,
      afterDoc (block options event names).tail =
          propertiesDeclaration names.propertiesType.toList (lower event.schema) ++
            '\n' :: eventDeclaration options event names ++
            '\n' :: factoryDeclaration options event names ∧
        factoryDeclaration options event names =
            docComment 0
                ("Build a ".toList ++ (Quoted.quote event.title).toList ++ " event.".toList) ++
              afterDoc (factoryDeclaration options event names) ∧
          "export const ".toList ++ names.factory.toList <+:
            afterDoc (factoryDeclaration options event names) := by
  refine ⟨fun indent text => ⟨docComment_eq_nil_iff, ?_⟩, afterDoc_renderProperties,
    fun options event names => ⟨afterDoc_block options event names,
      afterDoc_factoryDeclaration options event names⟩⟩
  exact Classical.or_iff_not_imp_left.2 closedOnce_docComment

end EventSchema.TypeScript
