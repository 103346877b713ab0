import EventSchema.Proofs.SettledPath

/-!
# Joining paths

A path is settled from left to right. What was settled of it can be written down and read again, so
a path may as well be settled in parts.

* `Canonical` — what settled segments look like: some `..` in front if the path is relative, and
  then ordinary segments;
* `canonical_push`, `canonical_settle` — one more segment keeps them like that, and so do all
  segments of a path;
* `settle_of_canonical`, `settle_split_render` — canonical segments are settled, and they are read
  back from their text;
* `normalizeText_append`, `normalizeText_resume` — so a path that goes on behind a slash may be
  settled before it goes on;
* `joinReference_composes` — two references, one read after the other, are one reference.
-/

namespace EventSchema

namespace Path

variable {absolute : Bool} {settled segments : List Segment} {segment : Segment} {text : List Char}

/-! ## Canonical segments -/

/-- The segments of a settled path: it climbs first, unless it is absolute, and then it goes down
over ordinary segments. -/
def Canonical (absolute : Bool) (segments : List Segment) : Prop :=
  ∃ climb names, segments = List.replicate climb ['.', '.'] ++ names ∧
    (absolute = true → climb = 0) ∧ ∀ s ∈ names, IsOrdinary s

/-- Ordinary segments are canonical. -/
theorem canonical_of_isOrdinary (h : ∀ s ∈ segments, IsOrdinary s) : Canonical absolute segments :=
  ⟨0, segments, rfl, fun _ => rfl, h⟩

/-- The canonical segments of an absolute path are ordinary. -/
theorem Canonical.isOrdinary (h : Canonical true segments) : ∀ s ∈ segments, IsOrdinary s := by
  obtain ⟨climb, names, rfl, habsolute, hnames⟩ := h
  rw [habsolute rfl]
  exact hnames

/-- A canonical segment has characters, and no slash is among them. -/
theorem Canonical.of_mem (h : Canonical absolute segments) (hsegment : segment ∈ segments) :
    segment ≠ [] ∧ '/' ∉ segment := by
  obtain ⟨climb, names, rfl, -, hnames⟩ := h
  rcases List.mem_append.1 hsegment with hup | hname
  · rw [List.eq_of_mem_replicate hup]
    decide
  · exact ⟨(hnames segment hname).1, (hnames segment hname).2.2.2⟩

/-- What is settled stays canonical when the path climbs. -/
theorem canonical_push_up (h : Canonical absolute settled.reverse) :
    Canonical absolute (push absolute settled ['.', '.']).reverse := by
  obtain ⟨climb, names, hsettled, habsolute, hnames⟩ := h
  rw [List.reverse_eq_iff] at hsettled
  rcases names.eq_nil_or_concat with rfl | ⟨names, last, rfl⟩
  · -- there is no name to take away
    obtain rfl : settled = List.replicate climb ['.', '.'] := by simpa using hsettled
    cases absolute with
    | true =>
      rw [habsolute rfl]
      exact canonical_of_isOrdinary nofun
    | false =>
      rw [push_up_replicate]
      exact ⟨climb + 1, [], by simp, nofun, nofun⟩
  · obtain rfl : settled = last :: (List.replicate climb ['.', '.'] ++ names).reverse := by
      simpa using hsettled
    rw [push_up_of_ne (hnames last (by simp)).2.2.1, List.reverse_reverse]
    exact ⟨climb, names, rfl, habsolute, fun s hs => hnames s (by simp [hs])⟩

/-- What is settled stays canonical with an ordinary segment more. -/
theorem canonical_push_name (h : Canonical absolute settled.reverse) (hname : IsOrdinary segment) :
    Canonical absolute (push absolute settled segment).reverse := by
  obtain ⟨climb, names, hsettled, habsolute, hnames⟩ := h
  rw [push_of_isOrdinary hname, List.reverse_cons, hsettled, List.append_assoc]
  refine ⟨climb, names ++ [segment], rfl, habsolute, fun s hs => ?_⟩
  rcases List.mem_append.1 hs with hs | hs
  · exact hnames s hs
  · exact List.mem_singleton.1 hs ▸ hname

/-- What is settled stays canonical with one more segment. -/
theorem canonical_push (h : Canonical absolute settled.reverse) (hsegment : '/' ∉ segment) :
    Canonical absolute (push absolute settled segment).reverse := by
  by_cases hblank : segment = [] ∨ segment = ['.']
  · rwa [push_of_blank hblank]
  · rw [not_or] at hblank
    by_cases hup : segment = ['.', '.']
    · exact hup ▸ canonical_push_up h
    · exact canonical_push_name h ⟨hblank.1, hblank.2, hup, hsegment⟩

/-- Settled segments are canonical. -/
theorem canonical_settle (absolute : Bool) (hsegments : ∀ s ∈ segments, '/' ∉ s) :
    Canonical absolute (settle absolute segments) := by
  have key : ∀ settled : List Segment, Canonical absolute settled.reverse →
      Canonical absolute (segments.foldl (push absolute) settled).reverse := by
    induction segments with
    | nil => exact fun _ h => h
    | cons s rest ih =>
      intro settled h
      have hpush := canonical_push h (hsegments s List.mem_cons_self)
      exact ih (fun t ht => hsegments t (List.mem_cons_of_mem _ ht)) _ hpush
  exact key [] (canonical_of_isOrdinary nofun)

/-- A relative path keeps everything that it climbs at its start. -/
theorem foldl_push_replicate (climb : Nat) :
    (List.replicate climb ['.', '.']).foldl (push false) [] = List.replicate climb ['.', '.'] := by
  induction climb with
  | zero => rfl
  | succ climb ih =>
    calc (List.replicate (climb + 1) ['.', '.']).foldl (push false) []
        = push false ((List.replicate climb ['.', '.']).foldl (push false) []) ['.', '.'] := by
          rw [List.replicate_succ', List.foldl_append, List.foldl_cons, List.foldl_nil]
      _ = List.replicate (climb + 1) ['.', '.'] := by rw [ih, push_up_replicate]

/-- Canonical segments settle to themselves. -/
theorem settle_of_canonical (h : Canonical absolute segments) :
    settle absolute segments = segments := by
  cases absolute with
  | true => exact settle_of_isOrdinary true h.isOrdinary
  | false =>
    obtain ⟨climb, names, rfl, -, hnames⟩ := h
    rw [settle, List.foldl_append, foldl_push_replicate, foldl_push_of_isOrdinary false hnames,
      List.reverse_append, List.reverse_reverse, List.reverse_replicate]

/-! ## Their text -/

/-- Canonical segments are read back from their text. -/
theorem settle_split_render (h : Canonical absolute segments) :
    settle absolute (split (render absolute segments)) = segments := by
  cases absolute with
  | true => exact settle_split_absolute h.isOrdinary
  | false =>
    by_cases hnil : segments = []
    · subst hnil
      rfl
    · rw [render, if_neg Bool.false_ne_true, if_neg hnil,
        split_join hnil fun s hs => (h.of_mem hs).2, settle_of_canonical h]

/-- The text of canonical segments is absolute if they are those of an absolute path. -/
theorem isAbsolute_render (h : Canonical absolute segments) :
    isAbsolute (render absolute segments) = absolute := by
  cases absolute with
  | true => rfl
  | false =>
    rw [render, if_neg Bool.false_ne_true]
    split
    · rfl
    · next hnil =>
      -- the first segment has a first character, which is no slash
      obtain ⟨first, rest, rfl⟩ := List.exists_cons_of_ne_nil hnil
      obtain ⟨hfirst, hslash⟩ := h.of_mem List.mem_cons_self
      obtain ⟨c, first, rfl⟩ := List.exists_cons_of_ne_nil hfirst
      have hc : c ≠ '/' := fun e => hslash (e ▸ List.mem_cons_self)
      cases rest <;> simp [join, isAbsolute, hc]

/-! ## Settling in parts -/

/-- A settled path is absolute if the path is. -/
theorem isAbsolute_normalizeText (text : List Char) :
    isAbsolute (normalizeText text) = isAbsolute text :=
  isAbsolute_render (canonical_settle _ slash_not_mem_of_mem_split)

/-- A settled path has the settled segments of the path. -/
theorem settle_split_normalizeText (text : List Char) :
    settle (isAbsolute text) (split (normalizeText text)) = settle (isAbsolute text) (split text) :=
  settle_split_render (canonical_settle _ slash_not_mem_of_mem_split)

/-- No path settles to the empty text: even without segments there is a slash or a dot. -/
theorem normalizeText_ne_nil (text : List Char) : normalizeText text ≠ [] := by
  intro hnil
  have hsettled : settle (isAbsolute text) (split text) = [] := by
    rw [← settle_split_normalizeText, hnil]
    rfl
  rw [normalizeText, hsettled] at hnil
  cases habsolute : isAbsolute text <;> simp [render, habsolute] at hnil

/-- A path that goes on behind a slash is settled from where it was settled before. -/
theorem normalizeText_append (h : text ≠ []) (more : List Char) :
    normalizeText (text ++ '/' :: more) =
      render (isAbsolute text) ((split more).foldl (push (isAbsolute text))
        (settle (isAbsolute text) (split text)).reverse).reverse := by
  have habsolute : isAbsolute (text ++ '/' :: more) = isAbsolute text := by
    obtain ⟨c, rest, rfl⟩ := List.exists_cons_of_ne_nil h
    rfl
  rw [normalizeText, habsolute, split_append_slash, settle, List.foldl_append, settle,
    List.reverse_reverse]

/-- A path may be settled before it goes on. -/
theorem normalizeText_resume (h : text ≠ []) (more : List Char) :
    normalizeText (normalizeText text ++ '/' :: more) = normalizeText (text ++ '/' :: more) := by
  rw [normalizeText_append (normalizeText_ne_nil text), normalizeText_append h,
    isAbsolute_normalizeText, settle_split_normalizeText]

/-! ## References -/

/-- A directory may be settled before a reference is read from it. -/
theorem joinReference_normalize {base : String} (h : base ≠ "") (reference : String) :
    joinReference (normalize base) reference = joinReference base reference := by
  have hbase : base.toList ≠ [] := fun hnil => h (String.toList_eq_nil_iff.1 hnil)
  have htext : (normalize base).toList = normalizeText base.toList := String.toList_ofList
  have hsettled : normalize base ≠ "" := fun hempty => by
    rw [← String.toList_eq_nil_iff, htext] at hempty
    exact normalizeText_ne_nil base.toList hempty
  rw [joinReference, if_neg hsettled, joinReference, if_neg h]
  apply String.toList_inj.1
  simpa [normalize] using normalizeText_resume hbase reference.toList

/-- Joining composes. From a directory that is not empty, be it absolute or relative,
* a reference leads to the same path if the directory is settled first;
* a reference that is read from where another one leads to leads where the two with a slash in the
  middle lead to, whatever the texts of the two are. -/
theorem joinReference_composes (base first second : String) (h : base ≠ "") :
    joinReference (normalize base) first = joinReference base first ∧
      joinReference (joinReference base first) second =
        joinReference base (first ++ "/" ++ second) := by
  refine ⟨joinReference_normalize h first, ?_⟩
  have hpath : base ++ "/" ++ first ≠ "" := by simp [h]
  calc joinReference (joinReference base first) second
      = joinReference (normalize (base ++ "/" ++ first)) second := by
        rw [joinReference.eq_def base first, if_neg h]
    _ = joinReference (base ++ "/" ++ first) second := joinReference_normalize hpath second
    _ = joinReference base (first ++ "/" ++ second) := by
        rw [joinReference, if_neg hpath, joinReference, if_neg h]
        simp only [String.append_assoc]

/-- Two references that climb out of a relative directory, which climbs itself. -/
theorem joinReference_climbing :
    "a/../.." ≠ "" ∧
      joinReference (normalize "a/../..") "../b//" = joinReference "a/../.." "../b//" ∧
      joinReference (joinReference "a/../.." "../b//") "/../../c" =
        joinReference "a/../.." "../b///../../c" ∧
      joinReference "a/../.." "../b///../../c" = "../../../c" := by
  have hbase : "a/../.." ≠ "" := by decide
  obtain ⟨hsettled, hjoined⟩ := joinReference_composes "a/../.." "../b//" "/../../c" hbase
  exact ⟨hbase, hsettled, hjoined, by decide +kernel⟩

end Path

end EventSchema
