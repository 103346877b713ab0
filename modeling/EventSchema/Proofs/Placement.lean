import EventSchema.Proofs.Inlining

/-!
# Paths below a directory

Where references lead from a document that stands below some directory.

* `Path.staysBelow` — a walk over segments that never leaves a directory upwards;
* `Path.follow`, `follow_append` — the directory that a walk ends in; what stands above a directory
  that the walk does not leave stays in front of it;
* `DocumentPath.below`, `RelativePath` — paths below a directory;
* `joinReference_parent` — the document that a reference leads to from another;
* `target_below` — a reference that does not climb above a directory means the same below every
  directory;
* `inlined_succ_iff_target` — the content of a document, with references as the documents that they
  lead to.
-/

namespace EventSchema

namespace Path

/-- Whether a walk over segments, from so many levels below a directory, never climbs above the
directory. -/
def staysBelow : Nat → List Segment → Bool
  | _, [] => true
  | depth, s :: rest =>
    if s = [] ∨ s = ['.'] then staysBelow depth rest
    else if s = ['.', '.'] then
      match depth with
      | 0 => false
      | depth + 1 => staysBelow depth rest
    else staysBelow (depth + 1) rest

/-- Where a walk over segments ends that starts in a directory. -/
def follow (directory segments : List Segment) : List Segment :=
  (segments.foldl (push true) directory.reverse).reverse

variable {walked segments root directory : List Segment}

/-- A walk that does not climb above a directory leaves what is above it alone. -/
theorem foldl_push_append (hwalked : ∀ s ∈ walked, IsOrdinary s)
    (hsegments : ∀ s ∈ segments, '/' ∉ s) (h : staysBelow walked.length segments = true)
    (above : List Segment) :
    segments.foldl (push true) (walked ++ above) = segments.foldl (push true) walked ++ above := by
  induction segments generalizing walked with
  | nil => rfl
  | cons s rest ih =>
    have hrest : ∀ t ∈ rest, '/' ∉ t := fun t ht => hsegments t (List.mem_cons_of_mem _ ht)
    unfold staysBelow at h
    rw [List.foldl_cons, List.foldl_cons]
    by_cases hskip : s = [] ∨ s = ['.']
    · rw [if_pos hskip] at h
      rw [push_of_blank hskip, push_of_blank hskip]
      exact ih hwalked hrest h
    · rw [if_neg hskip] at h
      by_cases hup : s = ['.', '.']
      · rw [if_pos hup] at h
        subst hup
        cases walked with
        | nil => simp at h
        | cons last before =>
          have hlast : last ≠ ['.', '.'] := (hwalked last List.mem_cons_self).2.2.1
          rw [List.cons_append, push_up_of_ne hlast, push_up_of_ne hlast]
          exact ih (fun t ht => hwalked t (List.mem_cons_of_mem _ ht)) hrest h
      · rw [if_neg hup] at h
        rw [not_or] at hskip
        have hname : IsOrdinary s := ⟨hskip.1, hskip.2, hup, hsegments s List.mem_cons_self⟩
        rw [push_of_isOrdinary hname, push_of_isOrdinary hname]
        exact ih (List.forall_mem_cons.2 ⟨hname, hwalked⟩) hrest h

/-- Below a directory that a walk does not leave, it ends in the same place. -/
theorem follow_append (hdirectory : ∀ s ∈ directory, IsOrdinary s)
    (hsegments : ∀ s ∈ segments, '/' ∉ s) (h : staysBelow directory.length segments = true) :
    follow (root ++ directory) segments = root ++ follow directory segments := by
  have hwalked : ∀ s ∈ directory.reverse, IsOrdinary s := fun s hs =>
    hdirectory s (List.mem_reverse.1 hs)
  rw [follow, List.reverse_append,
    foldl_push_append hwalked hsegments (by rwa [List.length_reverse]), List.reverse_append,
    List.reverse_reverse, follow]

/-- A reference is followed from the directory that it is read from. -/
theorem settle_split_append (hdirectory : ∀ s ∈ directory, IsOrdinary s) (reference : List Char) :
    settle true (split ('/' :: join directory ++ '/' :: reference)) =
      follow directory (split reference) := by
  have hsettled := settle_split_absolute hdirectory
  rw [settle, List.reverse_eq_iff] at hsettled
  rw [split_append_slash, settle, List.foldl_append, hsettled, follow]

/-- A reference leads to ordinary segments. -/
theorem isOrdinary_follow (hdirectory : ∀ s ∈ directory, IsOrdinary s) (reference : List Char) :
    ∀ s ∈ follow directory (split reference), IsOrdinary s := by
  rw [← settle_split_append hdirectory]
  exact isOrdinary_of_mem_settle slash_not_mem_of_mem_split

end Path

namespace DocumentPath

/-- The root of the file system. -/
def root : DocumentPath := ⟨[], nofun⟩

/-- The path that stands at a path below a directory. -/
def below (above p : DocumentPath) : DocumentPath :=
  ⟨above.segments ++ p.segments, fun s hs =>
    (List.mem_append.1 hs).elim (above.ordinary s) (p.ordinary s)⟩

/-- Where a reference leads that is read from the directory of a document. -/
def target (p : DocumentPath) (reference : String) : DocumentPath :=
  ⟨Path.follow p.segments.dropLast (Path.split reference.toList),
    Path.isOrdinary_follow (fun s hs => p.ordinary s (List.dropLast_subset _ hs)) _⟩

variable {above p q : DocumentPath}

/-- Below the root of the file system every path stands at itself. -/
@[simp] theorem root_below (p : DocumentPath) : root.below p = p := rfl

/-- Different paths below a directory are different. -/
theorem below_injective (h : above.below p = above.below q) : p = q := by
  obtain ⟨segments, ordinary⟩ := p
  obtain ⟨segments', ordinary'⟩ := q
  have hsegments : above.segments ++ segments = above.segments ++ segments' :=
    congrArg DocumentPath.segments h
  obtain rfl := List.append_cancel_left hsegments
  rfl

/-- The format of a document depends on its own name, and not on the directory above it. -/
theorem format_below (hp : p.segments ≠ []) :
    Library.format (above.below p) = Library.format p := by
  have hname : (above.below p).fileNameText = p.fileNameText := by
    rw [fileNameText, fileNameText, below, List.getLast?_append,
      List.getLast?_eq_some_getLast hp, Option.some_or]
  rw [Library.format, Library.format, extension?, extension?, hname]

/-- A reference leads to a document path. -/
theorem joinReference_parent (p : DocumentPath) (reference : String) :
    Path.joinReference p.parent reference = (p.target reference).text := by
  have hdirectory : ∀ s ∈ p.segments.dropLast, Path.IsOrdinary s := fun s hs =>
    p.ordinary s (List.dropLast_subset _ hs)
  have hparent : p.parent.toList = '/' :: Path.join p.segments.dropLast := by simp [parent]
  apply String.toList_inj.1
  rw [Path.toList_joinReference p.isAbsolute_parent, toList_text, hparent,
    Path.settle_split_append hdirectory, target]

/-- Whether a reference, read from the directory of a document, never climbs above the root of the
file system. -/
def staysBelow (p : DocumentPath) (reference : String) : Bool :=
  Path.staysBelow p.segments.dropLast.length (Path.split reference.toList)

/-- A reference that does not climb above a directory means the same below every directory. -/
theorem target_below {reference : String} (hp : p.segments ≠ [])
    (h : p.staysBelow reference = true) :
    (above.below p).target reference = above.below (p.target reference) := by
  have hdirectory : ∀ s ∈ p.segments.dropLast, Path.IsOrdinary s := fun s hs =>
    p.ordinary s (List.dropLast_subset _ hs)
  rw [target, below, DocumentPath.mk.injEq, below, target, List.dropLast_append_of_ne_nil hp]
  exact Path.follow_append hdirectory Path.slash_not_mem_of_mem_split h

end DocumentPath

namespace Library

variable {lib : Library} {p : DocumentPath} {raw t : Tree} {n : Nat}

/-- The targets of a located tree are the documents that the references lead to. -/
theorem located_eq (p : DocumentPath) (raw : Tree) :
    located p raw = raw.rewriteReferences fun r => (p.target r).text := by
  rw [located, Tree.resolveReferences]
  exact congrArg raw.rewriteReferences (funext p.joinReference_parent)

/-- A document refers to those that its references lead to. -/
theorem refers_target {r : String} (hraw : lib.parse p = .ok raw) (hr : r ∈ raw.targets) :
    lib.Refers p (p.target r) := by
  refine refers_iff.2 ⟨raw, hraw, ?_⟩
  rw [located_eq, Tree.targets_rewriteReferences]
  exact List.mem_map_of_mem hr

/-- A document has a content if it can be parsed, all documents that its references lead to have
one, and its bases can be inherited from. -/
theorem inlined_succ_iff_target :
    lib.inlined (n + 1) p = some t ↔
      ∃ raw, lib.parse p = .ok raw ∧
        (∀ r ∈ raw.targets, ∃ u, lib.inlined n (p.target r) = some u) ∧
        (raw.substitute fun r => lib.inlined n (p.target r)).inherit = .ok t := by
  have hall : ∀ raw : Tree, (∀ r ∈ (located p raw).targets, ∃ u, lib.inlinedAt n r = some u) ↔
      ∀ r ∈ raw.targets, ∃ u, lib.inlined n (p.target r) = some u := fun raw => by
    simp [located_eq, Tree.targets_rewriteReferences]
  rw [inlined_succ_eq_some_iff]
  refine exists_congr fun raw => and_congr_right fun _ => ?_
  rw [hall]
  refine and_congr_right fun h => ?_
  have htargets : ∀ r ∈ raw.targets, ∃ u, lib.inlinedAt n (p.target r).text = some u := by
    simpa using h
  rw [located_eq, Tree.substitute_rewriteReferences raw htargets]
  simp only [inlinedAt_text]

end Library

/-- A path below some directory. From the root of the file system it is a document path. -/
structure RelativePath extends DocumentPath where
  nonempty : segments ≠ []

namespace RelativePath

/-- The document at a path below a directory. -/
def under (r : RelativePath) (directory : DocumentPath) : DocumentPath :=
  directory.below r.toDocumentPath

/-- From the root of the file system a path is a document path. -/
@[simp] theorem under_root (r : RelativePath) : r.under .root = r.toDocumentPath := rfl

end RelativePath

end EventSchema
