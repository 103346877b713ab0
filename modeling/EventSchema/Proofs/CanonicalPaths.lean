import EventSchema.Proofs.JoinedPaths

/-!
# Canonical paths

What settled paths look like as texts. Settling makes such texts of all texts, and leaves alone
exactly those that are such texts already.

* `CanonicalText` — the two forms, absolute and relative;
* `canonicalText_iff` — they are the texts of canonical segments;
* `canonicalText_normalizeText`, `normalizeText_of_canonicalText` — settling gives one of the two
  forms, and keeps both;
* `normalize_canonical` — so with paths and with document paths.
-/

namespace EventSchema

namespace Path

variable {absolute : Bool} {text : List Char}

/-! ## Definition -/

/-- The text of a settled path, absolute or relative. -/
inductive CanonicalText : Bool → List Char → Prop
  /-- a slash, and then ordinary segments with a slash between each two -/
  | absolute {names : List Segment} (hnames : ∀ s ∈ names, IsOrdinary s) :
      CanonicalText true ('/' :: join names)
  /-- a dot alone -/
  | here : CanonicalText false ['.']
  /-- some `..` and then ordinary segments, one or more in all, with a slash between each two -/
  | relative {climb : Nat} {names : List Segment} (hnames : ∀ s ∈ names, IsOrdinary s)
      (hsome : climb ≠ 0 ∨ names ≠ []) :
      CanonicalText false (join (List.replicate climb ['.', '.'] ++ names))

/-- There are segments if there is a `..` or a name. -/
theorem climb_append_ne_nil_iff {climb : Nat} {names : List Segment} :
    List.replicate climb ['.', '.'] ++ names ≠ [] ↔ climb ≠ 0 ∨ names ≠ [] := by
  rw [Ne, List.append_eq_nil_iff, List.replicate_eq_nil_iff,
    Decidable.not_and_iff_not_or_not]

/-- Canonical texts are those of canonical segments. -/
theorem canonicalText_iff :
    CanonicalText absolute text ↔
      ∃ segments, Canonical absolute segments ∧ text = render absolute segments := by
  constructor
  · intro h
    cases h with
    | absolute hnames => exact ⟨_, canonical_of_isOrdinary hnames, rfl⟩
    | here => exact ⟨[], canonical_of_isOrdinary nofun, rfl⟩
    | @relative climb names hnames hsome =>
      refine ⟨_, ⟨climb, names, rfl, nofun, hnames⟩, ?_⟩
      rw [render, if_neg Bool.false_ne_true, if_neg (climb_append_ne_nil_iff.2 hsome)]
  · rintro ⟨segments, hsegments, rfl⟩
    cases absolute with
    | true => exact .absolute hsegments.isOrdinary
    | false =>
      obtain ⟨climb, names, rfl, -, hnames⟩ := hsegments
      rw [render, if_neg Bool.false_ne_true]
      split
      · exact .here
      · next hsome => exact .relative hnames (climb_append_ne_nil_iff.1 hsome)

/-! ## Settling -/

/-- A canonical text is absolute if it has the absolute form. -/
theorem CanonicalText.isAbsolute_eq (h : CanonicalText absolute text) :
    isAbsolute text = absolute := by
  obtain ⟨segments, hsegments, rfl⟩ := canonicalText_iff.1 h
  exact isAbsolute_render hsegments

/-- Settling makes every text canonical. -/
theorem canonicalText_normalizeText (text : List Char) :
    CanonicalText (isAbsolute text) (normalizeText text) :=
  canonicalText_iff.2 ⟨_, canonical_settle _ slash_not_mem_of_mem_split, rfl⟩

/-- Settling leaves a canonical text as it is. -/
theorem normalizeText_of_canonicalText (h : CanonicalText absolute text) :
    normalizeText text = text := by
  have habsolute := h.isAbsolute_eq
  obtain ⟨segments, hsegments, rfl⟩ := canonicalText_iff.1 h
  rw [normalizeText, habsolute, settle_split_render hsegments]

/-- The texts that settling leaves as they are. -/
theorem normalizeText_eq_self_iff :
    normalizeText text = text ↔ ∃ absolute, CanonicalText absolute text := by
  constructor
  · intro h
    exact ⟨isAbsolute text, by simpa only [h] using canonicalText_normalizeText text⟩
  · rintro ⟨absolute, h⟩
    exact normalizeText_of_canonicalText h

/-- A path as characters, settled. -/
theorem toList_normalize (path : String) :
    (normalize path).toList = normalizeText path.toList :=
  String.toList_ofList

/-- The paths that settling leaves as they are. -/
theorem normalize_eq_self_iff {path : String} :
    normalize path = path ↔ ∃ absolute, CanonicalText absolute path.toList := by
  rw [← String.toList_inj, toList_normalize, normalizeText_eq_self_iff]

end Path

/-- An absolute text spells the document path with the settled text, and no other text spells
one. -/
theorem DocumentPath.ofText_map_text (path : String) :
    (ofText path).map text =
      if Path.isAbsolute path.toList then .ok (Path.normalize path)
      else .error (.relative path) := by
  rw [ofText]
  split
  · next habsolute =>
    rw [Except.map, text, Path.normalize, Path.normalizeText_of_isAbsolute habsolute]
  · rfl

namespace Path

/-- Settling a path gives a canonical path, and leaves exactly the canonical paths as they are.
* A settled path is absolute exactly if the path is, and it has the form that belongs to it: a slash
  in front of ordinary segments, or `.` alone, or some `..` in front of ordinary segments.
* A path is settled already if and only if it has one of these forms; so it does not matter how
  often a path is settled.
* A document path has the absolute form. An absolute text spells the one whose text is the settled
  text, and a relative text spells none. -/
theorem normalize_canonical (path : String) :
    isAbsolute (normalize path).toList = isAbsolute path.toList ∧
      CanonicalText (isAbsolute path.toList) (normalize path).toList ∧
      (normalize path = path ↔ ∃ absolute, CanonicalText absolute path.toList) ∧
      normalize (normalize path) = normalize path ∧
      (DocumentPath.ofText path).map DocumentPath.text =
        (if isAbsolute path.toList then .ok (normalize path) else .error (.relative path)) ∧
      ∀ p : DocumentPath, CanonicalText true p.text.toList := by
  have hcanonical : CanonicalText (isAbsolute path.toList) (normalize path).toList := by
    rw [toList_normalize]
    exact canonicalText_normalizeText path.toList
  have hagain : normalize (normalize path) = normalize path :=
    normalize_eq_self_iff.2 ⟨_, hcanonical⟩
  refine ⟨hcanonical.isAbsolute_eq, hcanonical, normalize_eq_self_iff, hagain,
    DocumentPath.ofText_map_text path, ?_⟩
  intro p
  rw [DocumentPath.toList_text]
  exact .absolute p.ordinary

end Path

end EventSchema
