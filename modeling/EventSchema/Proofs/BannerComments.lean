import EventSchema.Proofs.ModuleText

/-!
# The banner as a comment

The header puts two slashes in front of every line of the banner, where a line ends at a line feed.
A reader of the module sees more ends of lines, so that what follows one of the others inside of a
line of the banner stands on a line of its own, without slashes.

* `sourceLines` — the lines as a reader of the module sees them;
* `IsCommentLine` — a line that holds no code;
* `sourceLines_append` — lines that end at a line feed are read one after the other;
* `forall_sourceLines_lineComment` — of a line of the banner, the first part is a comment, and the
  other parts are read as they are;
* `banner_commented_iff` — so the banner is a comment just if these parts are, and it is one
  whenever its lines end at line feeds only.
-/

namespace EventSchema

namespace TypeScript

open Text

/-! ## Lines of a module -/

/-- The characters at which a line of a module ends. -/
def isLineEnd (c : Char) : Bool := c = '\n' || c = '\r' || c = '\u2028' || c = '\u2029'

/-- The lines of a module, without their ends. A return directly before a line feed belongs to the
end, and what follows the last end is a line of its own, if only an empty one. -/
def sourceLines : List Char → List (List Char)
  | [] => [[]]
  | c :: rest =>
    if c = '\r' ∧ rest.head? = some '\n' then sourceLines rest
    else if isLineEnd c then [] :: sourceLines rest
    else
      match sourceLines rest with
      | [] => [[c]]
      | first :: others => (c :: first) :: others

/-- An empty line, or a line that is a comment. -/
def IsCommentLine (line : List Char) : Prop := line = [] ∨ "//".toList <+: line

instance (line : List Char) : Decidable (IsCommentLine line) := by
  unfold IsCommentLine; infer_instance

variable {a b cs line : List Char} {c : Char}

/-- There is always a first line. -/
theorem sourceLines_ne_nil (cs : List Char) : sourceLines cs ≠ [] := by
  induction cs with
  | nil => exact List.cons_ne_nil _ _
  | cons c rest ih =>
    rw [sourceLines]
    split
    · exact ih
    · split
      · exact List.cons_ne_nil _ _
      · split <;> exact List.cons_ne_nil _ _

/-- A character that ends no line belongs to the first line. -/
theorem sourceLines_cons (hc : isLineEnd c = false) (rest : List Char) :
    ∃ first others, sourceLines rest = first :: others ∧
      sourceLines (c :: rest) = (c :: first) :: others := by
  obtain ⟨first, others, hrest⟩ := List.exists_cons_of_ne_nil (sourceLines_ne_nil rest)
  have hreturn : c ≠ '\r' := by
    rintro rfl
    exact absurd hc (by decide)
  refine ⟨first, others, hrest, ?_⟩
  rw [sourceLines, if_neg fun h => hreturn h.1, hc, hrest]
  rfl

/-- Characters that end no line belong to the first line. -/
theorem sourceLines_append_left (h : ∀ c ∈ a, isLineEnd c = false) (b : List Char) :
    ∃ first others, sourceLines b = first :: others ∧
      sourceLines (a ++ b) = (a ++ first) :: others := by
  induction a with
  | nil =>
    obtain ⟨first, others, hb⟩ := List.exists_cons_of_ne_nil (sourceLines_ne_nil b)
    exact ⟨first, others, hb, hb⟩
  | cons c rest ih =>
    obtain ⟨first, others, hb, hrest⟩ := ih fun d hd => h d (List.mem_cons_of_mem _ hd)
    obtain ⟨_, _, hrest', hall⟩ := sourceLines_cons (h c List.mem_cons_self) (rest ++ b)
    obtain ⟨rfl, rfl⟩ := List.cons.inj (hrest.symm.trans hrest')
    exact ⟨first, others, hb, hall⟩

/-- Characters that end no line are one line. -/
theorem sourceLines_of_not_isLineEnd (h : ∀ c ∈ cs, isLineEnd c = false) :
    sourceLines cs = [cs] := by
  obtain ⟨first, others, hnil, hall⟩ := sourceLines_append_left h []
  obtain ⟨rfl, rfl⟩ := List.cons.inj hnil
  simpa using hall

/-- What stands before a line feed and what stands behind it are read one after the other, unless
the line feed is the second half of an end. -/
theorem sourceLines_append (h : a.getLast? ≠ some '\r') (b : List Char) :
    sourceLines (a ++ '\n' :: b) = sourceLines a ++ sourceLines b := by
  induction a with
  | nil => rfl
  | cons c rest ih =>
    -- the last character of the rest is that of the whole, if there is a rest
    have hlast : rest.getLast? ≠ some '\r' := by
      cases rest with
      | nil => exact nofun
      | cons d rest => rwa [List.getLast?_cons_cons] at h
    have hhead : c = '\r' ∧ (rest ++ '\n' :: b).head? = some '\n' ↔
        c = '\r' ∧ rest.head? = some '\n' := by
      refine and_congr_right fun hc => ?_
      cases rest with
      | nil => exact absurd (by rw [hc]; rfl) h
      | cons d rest => rfl
    rw [List.cons_append, sourceLines, sourceLines, ih hlast]
    simp only [hhead]
    split
    · rfl
    · split
      · rfl
      · obtain ⟨first, others, hrest⟩ := List.exists_cons_of_ne_nil (sourceLines_ne_nil rest)
        simp only [hrest, List.cons_append]

/-! ## Lines of a banner -/

/-- A text without the blanks at its end does not end in a blank. -/
theorem isBlank_getLast?_trimEnd (h : (trimEnd cs).getLast? = some c) : isBlank c = false := by
  rw [trimEnd, List.getLast?_reverse] at h
  have hhead := List.head?_dropWhile_not isBlank cs.reverse
  rw [h] at hhead
  exact hhead

/-- The parts of a line of the banner that a reader of the module takes for lines of their own. -/
def looseParts (line : List Char) : List (List Char) := (sourceLines (trimEnd line)).tail

/-- Slashes make a comment of the first part of a line, and leave the others as they are. -/
theorem forall_sourceLines_lineComment (line rest : List Char) :
    (∀ l ∈ sourceLines (lineComment line ++ rest), IsCommentLine l) ↔
      (∀ part ∈ looseParts line, IsCommentLine part) ∧
        ∀ l ∈ sourceLines rest, IsCommentLine l := by
  rw [lineComment, looseParts]
  split
  · next hblank =>
    have hslashes : sourceLines ("//\n".toList ++ rest) = "//".toList :: sourceLines rest :=
      sourceLines_append (a := "//".toList) (by decide) rest
    have hcomment : IsCommentLine "//".toList := by decide
    rw [hblank, hslashes, List.forall_mem_cons]
    exact and_congr_left fun _ => iff_of_true hcomment nofun
  · next htext =>
    have hlast : ("// ".toList ++ trimEnd line).getLast? ≠ some '\r' := by
      rw [List.getLast?_append]
      cases hend : (trimEnd line).getLast? with
      | none => exact absurd (List.getLast?_eq_none_iff.1 hend) htext
      | some c =>
        intro heq
        obtain rfl := Option.some.inj heq
        exact absurd (isBlank_getLast?_trimEnd hend) (by decide)
    have hslashes : ∀ c ∈ "// ".toList, isLineEnd c = false := by simp [isLineEnd]
    obtain ⟨first, others, hparts, hall⟩ := sourceLines_append_left hslashes (trimEnd line)
    have hcomment : IsCommentLine ("// ".toList ++ first) :=
      .inr ⟨' ' :: first, rfl⟩
    rw [List.append_assoc, List.singleton_append, sourceLines_append hlast, hall, hparts,
      List.cons_append, List.forall_mem_cons, List.forall_mem_append]
    exact and_iff_right hcomment

/-- The same for several lines. -/
theorem forall_sourceLines_lineComments (texts : List (List Char)) (rest : List Char) :
    (∀ l ∈ sourceLines (texts.flatMap lineComment ++ rest), IsCommentLine l) ↔
      (∀ line ∈ texts, ∀ part ∈ looseParts line, IsCommentLine part) ∧
        ∀ l ∈ sourceLines rest, IsCommentLine l := by
  induction texts with
  | nil => simp
  | cons line texts ih =>
    rw [List.flatMap_cons, List.append_assoc, forall_sourceLines_lineComment, ih,
      List.forall_mem_cons, and_assoc]

/-- The banner is a comment just if the parts of its lines are that a reader takes for lines of
their own. -/
theorem forall_sourceLines_bannerText (banner : List Char) :
    (∀ l ∈ sourceLines (bannerText banner), IsCommentLine l) ↔
      ∀ line ∈ lines banner, ∀ part ∈ looseParts line, IsCommentLine part := by
  have hend : ∀ l ∈ sourceLines (if trim banner = [] then [] else ['\n']), IsCommentLine l := by
    split <;> decide
  rw [bannerText, lineComments, forall_sourceLines_lineComments]
  exact and_iff_left hend

/-- Lines of the banner that end at line feeds only have no such parts. -/
theorem looseParts_eq_nil (h : ∀ c ∈ trimEnd line, isLineEnd c = false) : looseParts line = [] := by
  rw [looseParts, sourceLines_of_not_isLineEnd h]
  rfl

/-! ## Modules -/

/-- Every module starts with the text of the banner, and the line for linters follows it. In the
text of the banner, every line is empty or a comment just if this holds of the parts of the lines of
the banner that stand behind another end of a line than a line feed. It holds if there are no such
ends, except at the ends of the lines of the banner. -/
theorem banner_commented_iff (options : ModuleOptions) :
    (∀ catalog text, Catalog.module options catalog = .ok text →
      bannerText options.banner.toList ++ lintLine <+: text.toList) ∧
    ((∀ l ∈ sourceLines (bannerText options.banner.toList), IsCommentLine l) ↔
      ∀ line ∈ lines options.banner.toList, ∀ part ∈ looseParts line, IsCommentLine part) ∧
    ((∀ line ∈ lines options.banner.toList, ∀ c ∈ trimEnd line, isLineEnd c = false) →
      ∀ l ∈ sourceLines (bannerText options.banner.toList), IsCommentLine l) := by
  refine ⟨fun catalog text htext => ?_, forall_sourceLines_bannerText _, fun h => ?_⟩
  · obtain ⟨named, -, -, hall⟩ := named_of_module htext
    rw [hall]
    exact List.prefix_append _ _
  · refine (forall_sourceLines_bannerText _).2 fun line hline part hpart => ?_
    rw [looseParts_eq_nil (h line hline)] at hpart
    cases hpart

/-- Options with a banner of four lines, one of them blank, that end in different ways. -/
def plainBanner : ModuleOptions := ⟨"Generated.\r\nDo not edit.\t\n \n// really", true⟩

/-- All of this banner is a comment. -/
theorem banner_plainBanner :
    (∃ text, Catalog.empty.module plainBanner = .ok text ∧
      bannerText plainBanner.banner.toList ++ lintLine <+: text.toList) ∧
    (∀ line ∈ lines plainBanner.banner.toList, ∀ c ∈ trimEnd line, isLineEnd c = false) ∧
    ∀ l ∈ sourceLines (bannerText plainBanner.banner.toList), IsCommentLine l := by
  obtain ⟨hmodule, -, hcomment⟩ := banner_commented_iff plainBanner
  have hall : (lines plainBanner.banner.toList).all
      (fun line => (trimEnd line).all fun c => !isLineEnd c) = true := by decide
  have hends : ∀ line ∈ lines plainBanner.banner.toList, ∀ c ∈ trimEnd line,
      isLineEnd c = false := by
    simpa only [List.all_eq_true, Bool.not_eq_true'] using hall
  exact ⟨⟨_, rfl, hmodule .empty _ rfl⟩, hends, hcomment hends⟩

/-- What stands behind a return inside of a line of the banner is no comment. -/
theorem banner_innerReturn :
    "debugger;".toList ∈ sourceLines (bannerText "generated\rdebugger;".toList) ∧
      ¬ ∀ banner : List Char, ∀ l ∈ sourceLines (bannerText banner), IsCommentLine l := by
  have hcode : "debugger;".toList ∈ sourceLines (bannerText "generated\rdebugger;".toList) := by
    decide
  exact ⟨hcode, fun h => absurd (h _ _ hcode) (by decide)⟩

end TypeScript

end EventSchema
