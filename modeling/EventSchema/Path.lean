import EventSchema.Sorting
import EventSchema.Text.Utf8

/-!
# Paths

Slash-separated paths, handled as text only.

* `Path.split`, `Path.join` — a text and its segments;
* `Path.settle` — drops empty segments and `.`, and folds `..` into the segment before it; a `..`
  with nothing before it is dropped from an absolute path and kept in a relative one;
* `normalize`, `joinReference` — the same on whole texts;
* `DocumentPath` — the absolute path of a document, as the list of its settled segments. Two
  spellings of a path give equal document paths.
-/

namespace EventSchema

namespace Path

/-- What stands between two slashes. -/
abbrev Segment := List Char

/-- The segments of a text, the empty ones included. -/
def split : List Char → List Segment
  | [] => [[]]
  | c :: rest =>
    if c = '/' then [] :: split rest
    else
      match split rest with
      | [] => [[c]]
      | s :: ss => (c :: s) :: ss

/-- Segments with a slash between each two. -/
def join : List Segment → List Char
  | [] => []
  | [s] => s
  | s :: t :: ss => s ++ '/' :: join (t :: ss)

/-- A text with a slash in front is absolute. -/
def isAbsolute (text : List Char) : Bool := text.head? == some '/'

/-- Adds one segment to the settled segments before it, the last of them first. -/
def push (absolute : Bool) (settled : List Segment) (segment : Segment) : List Segment :=
  if segment = [] ∨ segment = ['.'] then settled
  else if segment = ['.', '.'] then
    match settled with
    | [] => if absolute then [] else [segment]
    | last :: before =>
      if last ≠ ['.', '.'] then before
      else if absolute then settled
      else segment :: settled
  else segment :: settled

/-- The settled segments of a path. -/
def settle (absolute : Bool) (segments : List Segment) : List Segment :=
  (segments.foldl (push absolute) []).reverse

/-- The text of settled segments. No segments at all are `/` or `.`. -/
def render (absolute : Bool) (segments : List Segment) : List Char :=
  if absolute then '/' :: join segments
  else if segments = [] then ['.']
  else join segments

/-- A path with its segments settled. -/
def normalizeText (text : List Char) : List Char :=
  render (isAbsolute text) (settle (isAbsolute text) (split text))

/-- A path with its segments settled. -/
def normalize (path : String) : String := String.ofList (normalizeText path.toList)

/-- A reference read from a directory. The reference is appended below the directory even if it
starts with a slash. -/
def joinReference (base reference : String) : String :=
  if base = "" then normalize reference else normalize (base ++ "/" ++ reference)

/-- A segment that settling leaves where it is, whatever stands before it. -/
def IsOrdinary (segment : Segment) : Prop :=
  segment ≠ [] ∧ segment ≠ ['.'] ∧ segment ≠ ['.', '.'] ∧ '/' ∉ segment

instance (segment : Segment) : Decidable (IsOrdinary segment) := by
  unfold IsOrdinary; infer_instance

/-- There is always a first segment. -/
theorem split_ne_nil (text : List Char) : split text ≠ [] := by
  cases text with
  | nil => simp [split]
  | cons c rest => simp only [split]; split <;> (try split) <;> simp

/-- No segment holds a slash. -/
theorem slash_not_mem_of_mem_split {text : List Char} : ∀ s ∈ split text, '/' ∉ s := by
  induction text with
  | nil => simp [split]
  | cons c rest ih =>
    simp only [split]
    split
    · simpa using ih
    · next hc =>
      have hc : '/' ≠ c := Ne.symm hc
      split
      · simp [hc]
      · next s ss h =>
        rw [h] at ih
        intro t ht
        rcases List.mem_cons.1 ht with rfl | ht
        · simpa [hc] using ih s (by simp)
        · exact ih t (by simp [ht])

/-- Settling an absolute path pushes ordinary segments only. -/
theorem isOrdinary_push {settled : List Segment} (h : ∀ s ∈ settled, IsOrdinary s)
    {segment : Segment} (hs : '/' ∉ segment) : ∀ s ∈ push true settled segment, IsOrdinary s := by
  unfold push
  split
  · exact h
  · next h₁ =>
    split
    · split
      · simp
      · next last before =>
        split
        · exact fun s hm => h s (by simp [hm])
        · exact h
    · next h₂ =>
      intro s hm
      rcases List.mem_cons.1 hm with rfl | hm
      · exact ⟨fun e => h₁ (.inl e), fun e => h₁ (.inr e), h₂, hs⟩
      · exact h s hm

/-- The settled segments of an absolute path are ordinary. -/
theorem isOrdinary_of_mem_settle {segments : List Segment} (hs : ∀ s ∈ segments, '/' ∉ s) :
    ∀ s ∈ settle true segments, IsOrdinary s := by
  have key : ∀ (segments settled : List Segment), (∀ s ∈ settled, IsOrdinary s) →
      (∀ s ∈ segments, '/' ∉ s) → ∀ s ∈ segments.foldl (push true) settled, IsOrdinary s := by
    intro segments
    induction segments with
    | nil => exact fun _ h _ => h
    | cons t rest ih =>
      exact fun settled h hs => ih _ (isOrdinary_push h (hs t (by simp)))
        fun s hm => hs s (by simp [hm])
  intro s hm
  exact key segments [] (by simp) hs s (by simpa [settle] using hm)

end Path

/-- The absolute path of a document: its segments, none of them empty, `.` or `..`. -/
structure DocumentPath where
  segments : List Path.Segment
  ordinary : ∀ s ∈ segments, Path.IsOrdinary s
  deriving DecidableEq

/-- What is wrong with the text or the bytes of a path. -/
inductive PathError where
  /-- the path does not start with a slash -/
  | relative (path : String)
  /-- the path is not valid UTF-8; shown with U+FFFD in place of bad sequences -/
  | notUtf8 (shown : String)
  deriving DecidableEq, Repr

/-- The text of an error. -/
def PathError.message : PathError → String
  | relative path => "document path must be absolute: '" ++ path ++ "'"
  | notUtf8 shown => "document path is not valid UTF-8: " ++ shown

namespace DocumentPath

/-- The document path of some segments, settled. -/
def ofSegments (segments : List Path.Segment) : DocumentPath :=
  ⟨Path.settle true (segments.flatMap Path.split), Path.isOrdinary_of_mem_settle fun s hs => by
    obtain ⟨t, -, ht⟩ := List.mem_flatMap.1 hs
    exact Path.slash_not_mem_of_mem_split s ht⟩

/-- The document path that an absolute text spells. -/
def ofText (text : String) : Except PathError DocumentPath :=
  if Path.isAbsolute text.toList then
    .ok ⟨Path.settle true (Path.split text.toList),
      Path.isOrdinary_of_mem_settle Path.slash_not_mem_of_mem_split⟩
  else .error (.relative text)

/-- The document path that absolute bytes spell. -/
def ofBytes (bytes : List UInt8) : Except PathError DocumentPath :=
  match Text.Utf8.decode? bytes with
  | some text => ofText text
  | none => .error (.notUtf8 (Text.Utf8.decodeShown bytes))

/-- The document path of a file that is named from a directory, unless the name is absolute. -/
def ofFile (directory name : String) : Except PathError DocumentPath :=
  ofText (if Path.isAbsolute name.toList then name else directory ++ "/" ++ name)

/-- The path as text. -/
def text (p : DocumentPath) : String := String.ofList ('/' :: Path.join p.segments)

/-- The directory that holds the document. -/
def parent (p : DocumentPath) : String := String.ofList ('/' :: Path.join p.segments.dropLast)

/-- The last segment, empty for the root. -/
def fileNameText (p : DocumentPath) : List Char := p.segments.getLast?.getD []

/-- The last segment, empty for the root. -/
def fileName (p : DocumentPath) : String := String.ofList p.fileNameText

/-- What follows the last dot of the file name, if that dot is not its first character. -/
def extension? (p : DocumentPath) : Option String :=
  let reversed := p.fileNameText.reverse
  let after := reversed.takeWhile (· != '.')
  match reversed.drop after.length with
  | _ :: _ :: _ => some (String.ofList after.reverse)
  | _ => none

/-- The order of paths is that of their texts. -/
def before (p q : DocumentPath) : Bool := p.text < q.text

end DocumentPath

end EventSchema
