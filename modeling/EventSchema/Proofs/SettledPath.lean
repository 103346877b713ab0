import EventSchema.Path

/-!
# Settled paths

A path that is settled is not changed by settling it again, so the text of a document path is a
faithful key:

* `split_join` — segments without slashes survive being joined and split;
* `push_of_blank`, `push_of_isOrdinary`, `push_up_of_ne` — what one segment does to those before it;
* `settle_of_isOrdinary` — ordinary segments settle to themselves;
* `ofText_text` — a document path is the one that its own text spells;
* `ofText_joinReference` — a reference that was read from the directory of a document spells a
  document path, and the text of that path is the reference itself.
-/

namespace EventSchema

namespace Path

/-! ## Splitting and joining -/

/-- A slash ends the segments before it. -/
theorem split_append_slash (before after : List Char) :
    split (before ++ '/' :: after) = split before ++ split after := by
  induction before with
  | nil => simp [split]
  | cons c rest ih =>
    by_cases hc : c = '/'
    · simp [split, hc, ih]
    · obtain ⟨s, ss, hs⟩ := List.exists_cons_of_ne_nil (split_ne_nil rest)
      simp only [List.cons_append, split, if_neg hc, ih, hs]

/-- A text without a slash is one segment. -/
theorem split_of_not_mem {text : List Char} (h : '/' ∉ text) : split text = [text] := by
  induction text with
  | nil => rfl
  | cons c rest ih =>
    simp only [List.mem_cons, not_or] at h
    simp only [split, if_neg (Ne.symm h.1), ih h.2]

/-- Segments without slashes survive being joined and split. -/
theorem split_join {segments : List Segment} (hne : segments ≠ [])
    (h : ∀ s ∈ segments, '/' ∉ s) : split (join segments) = segments := by
  induction segments with
  | nil => exact absurd rfl hne
  | cons s rest ih =>
    have hs := split_of_not_mem (h s (by simp))
    cases rest with
    | nil => simpa [join] using hs
    | cons t ss =>
      rw [join, split_append_slash, hs, ih (by simp) fun u hu => h u (by simp [hu])]
      rfl

/-! ## One segment -/

section Push

variable {absolute : Bool} {settled before : List Segment} {segment last : Segment}

/-- An empty segment and a dot say nothing. -/
theorem push_of_blank (h : segment = [] ∨ segment = ['.']) :
    push absolute settled segment = settled := by
  simp only [push, if_pos h]

/-- An ordinary segment is put behind the others. -/
theorem push_of_isOrdinary (h : IsOrdinary segment) :
    push absolute settled segment = segment :: settled := by
  obtain ⟨hnil, hdot, hdots, -⟩ := h
  simp [push, hnil, hdot, hdots]

/-- Two dots take the last segment away, unless that climbs as well. -/
theorem push_up_of_ne (h : last ≠ ['.', '.']) :
    push absolute (last :: before) ['.', '.'] = before := by
  simp [push, h]

/-- A relative path that has only climbed so far climbs one level more. -/
theorem push_up_replicate (climb : Nat) :
    push false (List.replicate climb ['.', '.']) ['.', '.'] =
      List.replicate (climb + 1) ['.', '.'] := by
  cases climb <;> simp [push, List.replicate_succ]

end Push

/-! ## Settling -/

/-- Ordinary segments are pushed as they are. -/
theorem foldl_push_of_isOrdinary (absolute : Bool) {segments : List Segment}
    (h : ∀ s ∈ segments, IsOrdinary s) (settled : List Segment) :
    segments.foldl (push absolute) settled = segments.reverse ++ settled := by
  induction segments generalizing settled with
  | nil => rfl
  | cons s rest ih =>
    rw [List.foldl_cons, push_of_isOrdinary (h s (by simp)), ih fun t ht => h t (by simp [ht])]
    simp

/-- Ordinary segments settle to themselves. -/
theorem settle_of_isOrdinary (absolute : Bool) {segments : List Segment}
    (h : ∀ s ∈ segments, IsOrdinary s) : settle absolute segments = segments := by
  rw [settle, foldl_push_of_isOrdinary absolute h]
  simp

/-- An empty segment in front, as every absolute text has one, settles to nothing. -/
theorem settle_nil_cons (absolute : Bool) (segments : List Segment) :
    settle absolute ([] :: segments) = settle absolute segments := by
  simp [settle, push]

/-- The text of ordinary segments leads over these segments. -/
theorem foldl_push_split_join (absolute : Bool) {segments : List Segment}
    (h : ∀ s ∈ segments, IsOrdinary s) (settled : List Segment) :
    (split (join segments)).foldl (push absolute) settled = segments.reverse ++ settled := by
  cases segments with
  | nil => rfl
  | cons s rest =>
    rw [split_join (List.cons_ne_nil s rest) fun t ht => (h t ht).2.2.2,
      foldl_push_of_isOrdinary absolute h]

/-- The segments of an absolute text that is settled already. -/
theorem settle_split_absolute {segments : List Segment} (h : ∀ s ∈ segments, IsOrdinary s) :
    settle true (split ('/' :: join segments)) = segments := by
  have hsplit : split ('/' :: join segments) = [] :: split (join segments) := by simp [split]
  rw [hsplit, settle_nil_cons, settle, foldl_push_split_join true h, List.append_nil,
    List.reverse_reverse]

/-! ## Absolute paths -/

/-- An absolute text stays absolute. -/
theorem normalizeText_of_isAbsolute {text : List Char} (h : isAbsolute text = true) :
    normalizeText text = '/' :: join (settle true (split text)) := by
  simp [normalizeText, render, h]

/-- What starts with a slash is absolute. -/
@[simp] theorem isAbsolute_slash (text : List Char) : isAbsolute ('/' :: text) = true := rfl

/-- Below an absolute directory every reference is absolute. -/
theorem isAbsolute_append {text : List Char} (h : isAbsolute text = true) (more : List Char) :
    isAbsolute (text ++ more) = true := by
  cases text with
  | nil => cases h
  | cons c rest => exact h

/-- A reference below an absolute directory, as text. -/
theorem toList_joinReference {base : String} (h : isAbsolute base.toList = true)
    (reference : String) :
    (joinReference base reference).toList =
      '/' :: join (settle true (split (base.toList ++ '/' :: reference.toList))) := by
  have hne : base ≠ "" := by rintro rfl; cases h
  have habs : isAbsolute (base ++ "/" ++ reference).toList = true := by
    simpa using isAbsolute_append h ('/' :: reference.toList)
  rw [joinReference, if_neg hne, normalize, String.toList_ofList,
    normalizeText_of_isAbsolute habs]
  simp

end Path

namespace DocumentPath

/-! ## Document paths and their texts -/

/-- The text of a document path, as characters. -/
theorem toList_text (p : DocumentPath) : p.text.toList = '/' :: Path.join p.segments := by
  simp [text]

/-- A document path is the one that its own text spells. -/
theorem ofText_text (p : DocumentPath) : ofText p.text = .ok p := by
  obtain ⟨segments, ordinary⟩ := p
  simp only [ofText, toList_text, Path.isAbsolute_slash, if_true,
    Path.settle_split_absolute ordinary]

/-- Document paths with one text are equal. -/
theorem text_injective {p q : DocumentPath} (h : p.text = q.text) : p = q := by
  have hpq : Except.ok p = (Except.ok q : Except PathError DocumentPath) := by
    rw [← ofText_text p, ← ofText_text q, h]
  exact Except.ok.inj hpq

/-- The directory of a document is absolute. -/
theorem isAbsolute_parent (p : DocumentPath) : Path.isAbsolute p.parent.toList = true := by
  simp [parent]

/-- A reference that was read from an absolute directory spells a document path, and the text of
that path is the reference itself. -/
theorem ofText_joinReference {base : String} (h : Path.isAbsolute base.toList = true)
    (reference : String) :
    ∃ q, ofText (Path.joinReference base reference) = .ok q ∧
      q.text = Path.joinReference base reference := by
  have hlist := Path.toList_joinReference h reference
  have habs : Path.isAbsolute (Path.joinReference base reference).toList = true := by
    rw [hlist]
    rfl
  have hord : ∀ s ∈ Path.settle true (Path.split (base.toList ++ '/' :: reference.toList)),
      Path.IsOrdinary s := Path.isOrdinary_of_mem_settle Path.slash_not_mem_of_mem_split
  refine ⟨_, by rw [ofText, if_pos habs], ?_⟩
  apply String.toList_inj.1
  rw [toList_text]
  simp only [hlist, Path.settle_split_absolute hord]

end DocumentPath

end EventSchema
