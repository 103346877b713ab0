import EventSchema.Proofs.Placement

/-!
# Addresses

Every document can be named in every other one: a reference may climb to the root of the file system
and go down to the document from there. It does no harm if it climbs too far.

* `Path.foldl_push_up`, `Path.follow_climb` — from a directory that is no deeper than a reference
  climbs, the reference leads to what follows;
* `DocumentPath.directory`, `DocumentPath.address` — the parent as a path, and a reference that
  leads to a document;
* `DocumentPath.exists_cut` — the parent and the file name of a document are what stands in front of
  the last slash of its path and behind it;
* `documents_addressable` — so each document leads to itself by its file name, and to every other
  one by its address.
-/

namespace EventSchema

namespace Path

variable {settled directory segments : List Segment} {levels : Nat}

/-- The last of several segments stands behind the last slash. -/
theorem join_concat (h : segments ≠ []) (last : Segment) :
    join (segments ++ [last]) = join segments ++ '/' :: last := by
  induction segments with
  | nil => exact absurd rfl h
  | cons s rest ih =>
    cases rest with
    | nil => rfl
    | cons t rest =>
      have hrest := ih (List.cons_ne_nil t rest)
      simp only [List.cons_append] at hrest
      simp only [List.cons_append, join, hrest, List.append_assoc]

/-- Climbing as many levels as there are leads to the root, and climbing on stays there. -/
theorem foldl_push_up (hsettled : ∀ s ∈ settled, IsOrdinary s) (h : settled.length ≤ levels) :
    (List.replicate levels ['.', '.']).foldl (push true) settled = [] := by
  induction levels generalizing settled with
  | zero => exact List.eq_nil_of_length_eq_zero (Nat.le_zero.1 h)
  | succ levels ih =>
    rw [List.replicate_succ, List.foldl_cons]
    cases settled with
    | nil => exact ih nofun (Nat.zero_le levels)
    | cons last before =>
      rw [push_up_of_ne (hsettled last List.mem_cons_self).2.2.1]
      exact ih (fun s hs => hsettled s (List.mem_cons_of_mem _ hs)) (Nat.le_of_succ_le_succ h)

/-- The text that climbs some levels. -/
def climb (levels : Nat) : List Char := (List.replicate levels ['.', '.', '/']).flatten

/-- The segments of a text that climbs before it goes on. -/
theorem split_climb (levels : Nat) (text : List Char) :
    split (climb levels ++ text) = List.replicate levels ['.', '.'] ++ split text := by
  induction levels with
  | zero => rfl
  | succ levels ih =>
    have hclimb : climb (levels + 1) ++ text = ['.', '.'] ++ '/' :: (climb levels ++ text) := by
      simp [climb, List.replicate_succ]
    rw [hclimb, split_append_slash, ih, List.replicate_succ]
    rfl

/-- Behind a climb to the root a path leads to its own segments. -/
theorem follow_climb (hdirectory : ∀ s ∈ directory, IsOrdinary s)
    (hsegments : ∀ s ∈ segments, IsOrdinary s) (h : directory.length ≤ levels) :
    follow directory (split (climb levels ++ join segments)) = segments := by
  have hup : (List.replicate levels ['.', '.']).foldl (push true) directory.reverse = [] :=
    foldl_push_up (fun s hs => hdirectory s (List.mem_reverse.1 hs)) (by rwa [List.length_reverse])
  rw [follow, split_climb, List.foldl_append, hup, foldl_push_split_join true hsegments,
    List.append_nil, List.reverse_reverse]

end Path

namespace DocumentPath

variable {a b p : DocumentPath} {levels : Nat}

/-! ## Parents and file names -/

/-- The directory that holds a document, as a path. -/
def directory (p : DocumentPath) : DocumentPath :=
  ⟨p.segments.dropLast, fun s hs => p.ordinary s (List.dropLast_subset _ hs)⟩

/-- The text of the directory is the parent. -/
theorem text_directory (p : DocumentPath) : p.directory.text = p.parent := rfl

/-- The text of a document path is settled. -/
theorem normalize_text (p : DocumentPath) : Path.normalize p.text = p.text := by
  apply String.toList_inj.1
  rw [Path.normalize, String.toList_ofList, toList_text,
    Path.normalizeText_of_isAbsolute (Path.isAbsolute_slash _),
    Path.settle_split_absolute p.ordinary]

/-- A path is cut at its last slash into its parent and its file name. Nothing in front of this
slash stands for the root. -/
theorem exists_cut (p : DocumentPath) :
    ∃ before, p.text = before ++ "/" ++ p.fileName ∧ '/' ∉ p.fileName.toList ∧
      p.parent = if before = "" then "/" else before := by
  obtain ⟨segments, ordinary⟩ := p
  simp only [text, parent, fileName, fileNameText]
  rcases segments.eq_nil_or_concat' with rfl | ⟨above, last, rfl⟩
  · exact ⟨"", by decide +kernel⟩
  · have hlast : '/' ∉ last := (ordinary last (by simp)).2.2.2
    rw [List.dropLast_concat, List.getLast?_concat, Option.getD_some, String.toList_ofList]
    by_cases habove : above = []
    · subst habove
      refine ⟨"", String.toList_inj.1 ?_, hlast, by decide +kernel⟩
      simp [Path.join]
    · refine ⟨String.ofList ('/' :: Path.join above), String.toList_inj.1 ?_, hlast, ?_⟩
      · simp [Path.join_concat habove]
      · rw [if_neg (by simp)]

/-- Read from the parent, the file name leads to the document. -/
theorem target_fileName (p : DocumentPath) : p.target p.fileName = p := by
  obtain ⟨segments, ordinary⟩ := p
  rw [target, DocumentPath.mk.injEq, fileName, String.toList_ofList, fileNameText, Path.follow]
  rcases segments.eq_nil_or_concat' with rfl | ⟨above, last, rfl⟩
  · rfl
  · have hlast : Path.IsOrdinary last := ordinary last (by simp)
    rw [List.dropLast_concat, List.getLast?_concat, Option.getD_some,
      Path.split_of_not_mem hlast.2.2.2, List.foldl_cons, List.foldl_nil,
      Path.push_of_isOrdinary hlast, List.reverse_cons, List.reverse_reverse]

/-! ## Addresses -/

/-- A reference that climbs some levels and goes down to a document. -/
def address (levels : Nat) (p : DocumentPath) : String :=
  String.join (List.replicate levels "../") ++ String.ofList p.text.toList.tail

/-- The text of an address. -/
theorem toList_address (levels : Nat) (p : DocumentPath) :
    (address levels p).toList = Path.climb levels ++ Path.join p.segments := by
  simp [address, Path.climb, toList_text, List.flatMap_replicate]

/-- The address of a document leads to it from every document that is no deeper. -/
theorem target_address (h : a.directory.segments.length ≤ levels) :
    a.target (address levels b) = b := by
  obtain ⟨segments, ordinary⟩ := b
  rw [target, DocumentPath.mk.injEq, toList_address]
  exact Path.follow_climb a.directory.ordinary ordinary h

/-- Every document is addressable from every other. Read from the parent of a document,
* the address of another document leads to it, if it climbs at least as many levels as the parent
  has segments, and however many more it climbs;
* the file name of the document leads to the document itself. The parent is a settled absolute path,
  and the two are what stands on either side of the last slash. -/
theorem documents_addressable :
    (∀ (a b : DocumentPath) (levels : Nat), a.directory.segments.length ≤ levels →
      Path.joinReference a.parent (address levels b) = b.text) ∧
    ∀ p : DocumentPath,
      (Path.isAbsolute p.parent.toList = true ∧ Path.normalize p.parent = p.parent ∧
        ofText p.parent = .ok p.directory) ∧
      Path.joinReference p.parent p.fileName = p.text ∧
      ∃ before, p.text = before ++ "/" ++ p.fileName ∧ '/' ∉ p.fileName.toList ∧
        p.parent = if before = "" then "/" else before := by
  refine ⟨fun a b levels h => ?_, fun p => ⟨⟨isAbsolute_parent p, ?_, ?_⟩, ?_, exists_cut p⟩⟩
  · rw [joinReference_parent, target_address h]
  · rw [← text_directory, normalize_text]
  · rw [← text_directory, ofText_text]
  · rw [joinReference_parent, target_fileName]

/-- A document two levels below the root, whose name is not ASCII. -/
def deepPath : DocumentPath := ⟨["s".toList, "v2".toList, "é.json".toList], by decide⟩

/-- A document at the root. -/
def topPath : DocumentPath := ⟨["top.json".toList], by decide⟩

/-- From the document below, an address that climbs one level too far leads to the one at the
root. -/
theorem deepPath_addresses_topPath :
    deepPath.directory.segments.length ≤ 3 ∧ address 3 topPath = "../../../top.json" ∧
      Path.joinReference deepPath.parent (address 3 topPath) = topPath.text ∧
      Path.joinReference deepPath.parent deepPath.fileName = deepPath.text := by
  obtain ⟨haddress, hname⟩ := documents_addressable
  have hdeep : deepPath.directory.segments.length ≤ 3 := by decide
  exact ⟨hdeep, by decide +kernel, haddress deepPath topPath 3 hdeep, (hname deepPath).2.1⟩

end DocumentPath

end EventSchema
