import EventSchema.Glob.Search
import EventSchema.Proofs.Disks
import EventSchema.Proofs.PathOrder

/-!
# Searching a disk with one more file

A search goes through directories only. A file that is written changes none of them, so on the disk
with this file a search finds what it found before, and besides at most the file.

* `Disk.Gains` — a disk with a file more, or with another file in its place; `gains_set` makes one;
* `Disk.Below` — what a search through all directories below one comes to;
* `find_of_gains`, `mem_of_find_gains` — a search finds nothing less, and at most the file more;
* `Gains.documents` — so the documents of a pattern that does not mean the file stay the same.
-/

namespace EventSchema

namespace Disk

variable {d d' : Disk} {place l m : Location} {s : Path.Segment}

/-- The directories of a disk stay the same, while there is a file at some place. -/
structure Gains (d d' : Disk) (place : Location) : Prop where
  same : d.SameDirectories d'
  free : d.hasDirectory place = false
  ordinary : ∀ s, place.getLast? = some s → Path.IsOrdinary s
  elsewhere : ∀ l, l ≠ place → d'.node? l = d.node? l
  present : (d'.node? place).isSome = true
  names : ∀ l s, s ∈ d'.names l ↔ s ∈ d.names l ∨ l ++ [s] = place

/-! ## Names -/

/-- The names in a directory are those of the places right below it. -/
theorem mem_names : s ∈ d.names l ↔ ∃ e ∈ d.nodes, e.1 = l ++ [s] := by
  rw [names, List.mem_filterMap]
  constructor
  · rintro ⟨e, he, hname⟩
    split at hname
    · next hbelow =>
      refine ⟨e, he, ?_⟩
      rw [← hbelow.2]
      exact (List.dropLast_append_getLast? s hname).symm
    · cases hname
  · rintro ⟨e, he, hplace⟩
    exact ⟨e, he, by simp [hplace]⟩

/-- What stands below a directory has a name in it. -/
theorem mem_names_of_hasDirectory (h : d.hasDirectory (l ++ [s]) = true) : s ∈ d.names l := by
  have hmem := mem_nodes_of_node? (List.concat_ne_nil s l) (hasDirectory_iff.1 h)
  exact mem_names.2 ⟨(l ++ [s], .directory), hmem, rfl⟩

/-- A file is put where no directory is, under an ordinary name. -/
theorem gains_set (hfree : d.hasDirectory place = false)
    (hordinary : ∀ s, place.getLast? = some s → Path.IsOrdinary s) (content : List UInt8)
    (mode : Nat) : d.Gains (d.set place (.file content mode)) place := by
  refine ⟨sameDirectories_set hfree content mode, hfree, hordinary,
    fun l hl => node?_set_of_ne hl, ?_, fun l s => ?_⟩
  · rw [node?_set_self (ne_nil_of_hasDirectory hfree)]
    rfl
  · rw [mem_names, mem_names]
    by_cases hplace : l ++ [s] = place
    · simp [set, hplace]
    · have hne : place ≠ l ++ [s] := Ne.symm hplace
      simp only [set, List.mem_cons, List.mem_filter, exists_eq_or_imp, hne, hplace, or_false,
        false_or]
      constructor
      · rintro ⟨e, ⟨he, -⟩, heq⟩
        exact ⟨e, he, heq⟩
      · rintro ⟨e, he, heq⟩
        exact ⟨e, ⟨he, by simpa [heq] using hplace⟩, heq⟩

/-! ## Directories below a directory -/

/-- A directory lies below another one, with directories all the way, or is the same. -/
inductive Below (d : Disk) : Location → Location → Prop
  | here {l : Location} (h : d.hasDirectory l = true) : Below d l l
  | down {l m : Location} {s : Path.Segment} (h : d.hasDirectory l = true)
      (hbelow : Below d (l ++ [s]) m) : Below d l m

/-- Something lies below directories only. -/
theorem Below.hasDirectory (h : d.Below l m) : d.hasDirectory l = true := by
  cases h with
  | here h => exact h
  | down h => exact h

/-- What lies below depends on the directories alone. -/
theorem Below.same (h : d.Below l m) (hsame : d.SameDirectories d') : d'.Below l m := by
  induction h with
  | here h => exact .here ((hsame.hasDirectory _).trans h)
  | down h _ ih => exact .down ((hsame.hasDirectory _).trans h) ih

/-- No directory is deeper than the deepest place. -/
theorem length_le_depth (h : d.hasDirectory l = true) : l.length ≤ d.depth := by
  cases l with
  | nil => exact Nat.zero_le _
  | cons s rest =>
    have hmem := mem_nodes_of_node? (List.cons_ne_nil s rest) (hasDirectory_iff.1 h)
    exact le_foldl_max (fun e : Location × DiskNode => e.1.length) hmem 0

/-- The list of directories to some depth holds directories below the first one. -/
theorem below_of_mem_directoriesWithin {depth : Nat} (h : m ∈ d.directoriesWithin depth l) :
    d.Below l m := by
  induction depth generalizing l with
  | zero => cases h
  | succ depth ih =>
    rw [directoriesWithin] at h
    split at h
    · next hl =>
      rcases List.mem_cons.1 h with rfl | h
      · exact .here hl
      · obtain ⟨s, -, hs⟩ := List.mem_flatMap.1 h
        exact .down hl (ih hs)
    · cases h

/-- To a depth at which there is nothing more, the list holds all of them. -/
theorem mem_directoriesWithin (h : d.Below l m) {depth : Nat}
    (hdepth : d.depth < depth + l.length) : m ∈ d.directoriesWithin depth l := by
  induction h generalizing depth with
  | @here l hl =>
    have hle := length_le_depth hl
    obtain ⟨depth, rfl⟩ : ∃ n, depth = n + 1 := ⟨depth - 1, by omega⟩
    simp [directoriesWithin, hl]
  | @down l m s hl hbelow ih =>
    have hle := length_le_depth hl
    obtain ⟨depth, rfl⟩ : ∃ n, depth = n + 1 := ⟨depth - 1, by omega⟩
    rw [directoriesWithin, if_pos hl]
    refine List.mem_cons_of_mem _ (List.mem_flatMap.2 ⟨s, ?_, ih ?_⟩)
    · exact mem_names_of_hasDirectory hbelow.hasDirectory
    · rw [List.length_append, List.length_singleton]
      omega

/-- The directories from one on are those below it. -/
theorem mem_directoriesFrom : m ∈ d.directoriesFrom l ↔ d.Below l m :=
  ⟨below_of_mem_directoriesWithin, fun h => mem_directoriesWithin h (by omega)⟩

/-- There are no directories from a place on where there is none. -/
theorem directoriesFrom_eq_nil (h : d.hasDirectory l = false) : d.directoriesFrom l = [] := by
  rw [directoriesFrom, directoriesWithin, h]
  rfl

namespace Gains

/-- All directories are below the same ones. -/
theorem mem_directoriesFrom_iff (h : d.Gains d' place) :
    m ∈ d'.directoriesFrom l ↔ m ∈ d.directoriesFrom l := by
  rw [mem_directoriesFrom, mem_directoriesFrom]
  exact ⟨fun hm => hm.same h.same.symm, fun hm => hm.same h.same⟩

end Gains

end Disk

namespace Glob

variable {d d' : Disk} {place m : Location} {spot : Spot} {name : Path.Segment} {c : Component}
  {cs : List Component}

/-! ## One component -/

/-- An ordinary name leads to the place right below. -/
theorem place_enter (h : Path.IsOrdinary name) :
    (spot.enter name).place = spot.place ++ [name] := by
  obtain ⟨hnil, hdot, hdots, -⟩ := h
  simp [Spot.enter, Disk.step, hnil, hdot, hdots]

/-- The names at a spot that fit. -/
theorem mem_entries : name ∈ entries d spot c ↔
    spot.isDirectory d = true ∧ name ∈ d.names spot.place ∧ c.fits name = true := by
  rw [entries]
  split
  · next h => simp [h]
  · next h => simp [h]

/-- The spot at a directory below another spot. -/
def Spot.descend (spot : Spot) (l : Location) : Spot :=
  (l.drop spot.place.length).foldl Spot.enter spot

/-- What a component with wildcards finds. -/
theorem mem_find_wild {ts : List Token} : m ∈ find d (.wild ts :: cs) spot ↔
    ∃ name, (name ∈ entries d spot (.wild ts) ∨ name ∈ dotEntries d spot ts) ∧
      m ∈ find d cs (spot.enter name) := by
  simp only [find, List.mem_flatMap, List.mem_append]

/-- What a component finds in any directory below. -/
theorem mem_find_anyDirectories : m ∈ find d (.anyDirectories :: c :: cs) spot ↔
    ∃ l ∈ d.directoriesFrom spot.place, ∃ name ∈ entries d (spot.descend l) c,
      m ∈ find d cs ((spot.descend l).enter name) := by
  simp only [find, List.mem_flatMap, Spot.descend]

/-- A search ends where there is no directory. -/
theorem eq_place_of_find (h : d.hasDirectory spot.place = false) (hm : m ∈ find d cs spot) :
    m = spot.place := by
  have hspot : spot.isDirectory d = false := by
    rw [Spot.isDirectory, h, Bool.and_false]
  rw [find.eq_def] at hm
  split at hm
  · exact List.mem_singleton.1 hm
  · simp [hasLiteral, hspot] at hm
  · simp [entries, dotEntries, hspot] at hm
  · simp [Disk.directoriesFrom_eq_nil h] at hm
  · simp [Disk.directoriesFrom_eq_nil h] at hm

section Gains

variable (h : d.Gains d' place)
include h

/-- There are directories at the same spots. -/
theorem isDirectory_of_gains (spot : Spot) : spot.isDirectory d' = spot.isDirectory d := by
  rw [Spot.isDirectory, Spot.isDirectory, h.same.hasDirectory]

/-- The names of directories that are spelled with dots do not depend on files. -/
theorem dotEntries_of_gains (spot : Spot) (ts : List Token) :
    dotEntries d' spot ts = dotEntries d spot ts := by
  rw [dotEntries, dotEntries, isDirectory_of_gains h]

/-- A name that fitted does so still, and besides at most the file does. -/
theorem mem_entries_of_gains : name ∈ entries d' spot c ↔ name ∈ entries d spot c ∨
    (spot.isDirectory d = true ∧ spot.place ++ [name] = place ∧ c.fits name = true) := by
  rw [mem_entries, mem_entries, isDirectory_of_gains h, h.names]
  tauto

/-- A spot that a name of the file leads to is at the file. -/
theorem place_enter_of_gains (hname : spot.place ++ [name] = place) :
    (spot.enter name).place = place := by
  rw [place_enter (h.ordinary name (by simp [← hname])), hname]

/-- A plain name that meant something does so still. -/
theorem hasLiteral_of_gains (hliteral : hasLiteral d spot name = true) :
    hasLiteral d' spot name = true := by
  have hpresent : (d.node? (spot.enter name).place).isSome = true →
      (d'.node? (spot.enter name).place).isSome = true := by
    intro hsome
    by_cases hplace : (spot.enter name).place = place
    · rw [hplace]
      exact h.present
    · rw [h.elsewhere _ hplace]
      exact hsome
  rw [hasLiteral, Bool.and_eq_true] at hliteral ⊢
  rw [isDirectory_of_gains h]
  refine ⟨hliteral.1, ?_⟩
  obtain ⟨-, hmeans⟩ := hliteral
  split
  · next hname =>
    rw [if_pos hname] at hmeans
    exact hmeans
  · next hname =>
    rw [if_neg hname, Bool.or_eq_true, Bool.and_eq_true] at hmeans
    rw [Bool.or_eq_true, Bool.and_eq_true]
    exact hmeans.imp_right fun ⟨hreachable, hsome⟩ => ⟨hreachable, hpresent hsome⟩

/-- A plain name that means something did so before, unless it leads to the file. -/
theorem hasLiteral_or_of_gains (hliteral : hasLiteral d' spot name = true) :
    hasLiteral d spot name = true ∨ (spot.enter name).place = place := by
  by_cases hplace : (spot.enter name).place = place
  · exact .inr hplace
  · refine .inl ?_
    rw [hasLiteral, isDirectory_of_gains h, h.elsewhere _ hplace] at hliteral
    exact hliteral

/-! ## A whole search -/

/-- What was found is found still. -/
theorem find_of_gains (hm : m ∈ find d cs spot) : m ∈ find d' cs spot := by
  fun_induction find d cs spot with
  | case1 spot => exact hm
  | case2 spot name rest hliteral ih =>
    rw [find, if_pos (hasLiteral_of_gains h hliteral)]
    exact ih hm
  | case3 => cases hm
  | case4 ts rest spot ih =>
    obtain ⟨name, hname, hm⟩ := mem_find_wild.1 hm
    refine mem_find_wild.2 ⟨name, ?_, ih name hm⟩
    rw [mem_entries_of_gains h, dotEntries_of_gains h]
    exact hname.imp_left .inl
  | case5 spot =>
    rw [find, List.mem_filter, h.mem_directoriesFrom_iff]
    exact List.mem_filter.1 hm
  | case6 c rest spot ih =>
    obtain ⟨l, hl, name, hname, hm⟩ := mem_find_anyDirectories.1 hm
    exact mem_find_anyDirectories.2 ⟨l, h.mem_directoriesFrom_iff.2 hl, name,
      (mem_entries_of_gains h).2 (.inl hname), ih l name hm⟩

/-- What is found was found before, unless it is the file. -/
theorem mem_of_find_gains (hm : m ∈ find d' cs spot) : m ∈ find d cs spot ∨ m = place := by
  -- a search that comes to the file ends there
  have hends : ∀ {cs : List Component} {spot : Spot}, spot.place = place → m ∈ find d' cs spot →
      m = place := by
    intro cs spot hspot hm
    rw [← hspot]
    refine eq_place_of_find ?_ hm
    rw [hspot, h.same.hasDirectory, h.free]
  fun_induction find d' cs spot with
  | case1 spot => exact .inl hm
  | case2 spot name rest hliteral ih =>
    rcases hasLiteral_or_of_gains h hliteral with hliteral | hplace
    · rw [find, if_pos hliteral]
      exact ih hm
    · exact .inr (hends hplace hm)
  | case3 => cases hm
  | case4 ts rest spot ih =>
    obtain ⟨name, hname, hm⟩ := mem_find_wild.1 hm
    rw [mem_entries_of_gains h, dotEntries_of_gains h] at hname
    rcases hname with (hname | ⟨-, hplace, -⟩) | hname
    · exact (ih name hm).imp_left fun hm => mem_find_wild.2 ⟨name, .inl hname, hm⟩
    · exact .inr (hends (place_enter_of_gains h hplace) hm)
    · exact (ih name hm).imp_left fun hm => mem_find_wild.2 ⟨name, .inr hname, hm⟩
  | case5 spot =>
    rw [List.mem_filter, h.mem_directoriesFrom_iff] at hm
    rw [find]
    exact .inl (List.mem_filter.2 hm)
  | case6 c rest spot ih =>
    obtain ⟨l, hl, name, hname, hm⟩ := mem_find_anyDirectories.1 hm
    rcases (mem_entries_of_gains h).1 hname with hname | ⟨-, hplace, -⟩
    · exact (ih l name hm).imp_left fun hm =>
        mem_find_anyDirectories.2 ⟨l, h.mem_directoriesFrom_iff.1 hl, name, hname, hm⟩
    · exact .inr (hends (place_enter_of_gains h hplace) hm)

end Gains

end Glob

/-! ## The documents of a pattern -/

namespace Disk

variable {d d' : Disk} {place : Location} {p : Glob.PathPattern} {q : DocumentPath}

/-- The documents of a pattern are at the places of files that it means. -/
theorem mem_documents : q ∈ d.documents p ↔
    ∃ m ∈ d.matchesOf p, d.hasDirectory m = false ∧ DocumentPath.ofSegments m = q := by
  simp only [documents, mem_sortOnce, List.mem_map, List.mem_filter,
    Bool.not_eq_true', and_assoc]

/-- A pattern means what it meant before. -/
theorem Gains.matchesOf (h : d.Gains d' place) {m : Location} (hm : m ∈ d.matchesOf p) :
    m ∈ d'.matchesOf p := by
  simp only [Disk.matchesOf, h.same.working] at hm ⊢
  split at hm
  · next honly =>
    obtain ⟨hm, hdirectory⟩ := List.mem_filter.1 hm
    rw [if_pos honly, List.mem_filter, h.same.hasDirectory]
    exact ⟨Glob.find_of_gains h hm, hdirectory⟩
  · next honly =>
    rw [if_neg honly]
    exact Glob.find_of_gains h hm

/-- A pattern means at most the file more. -/
theorem Gains.mem_of_matchesOf (h : d.Gains d' place) {m : Location} (hm : m ∈ d'.matchesOf p) :
    m ∈ d.matchesOf p ∨ m = place := by
  simp only [Disk.matchesOf, h.same.working] at hm ⊢
  split at hm
  · next honly =>
    obtain ⟨hm, hdirectory⟩ := List.mem_filter.1 hm
    rw [h.same.hasDirectory] at hdirectory
    rw [if_pos honly, List.mem_filter]
    exact (Glob.mem_of_find_gains h hm).imp_left fun hm => ⟨hm, hdirectory⟩
  · next honly =>
    rw [if_neg honly]
    exact Glob.mem_of_find_gains h hm

/-- The documents of a pattern are the same as before, if the file is none of them. -/
theorem Gains.documents (h : d.Gains d' place)
    (hout : DocumentPath.ofSegments place ∉ d'.documents p) :
    d'.documents p = d.documents p := by
  refine (DocumentPath.ordered_sortOnce _).ext (DocumentPath.ordered_sortOnce _) fun q => ?_
  change q ∈ d'.documents p ↔ q ∈ d.documents p
  constructor
  · intro hq
    obtain ⟨m, hm, hfile, rfl⟩ := mem_documents.1 hq
    rcases h.mem_of_matchesOf hm with hm | rfl
    · exact mem_documents.2 ⟨m, hm, (h.same.hasDirectory m).symm.trans hfile, rfl⟩
    · exact absurd hq hout
  · intro hq
    obtain ⟨m, hm, hfile, rfl⟩ := mem_documents.1 hq
    exact mem_documents.2 ⟨m, h.matchesOf hm, (h.same.hasDirectory m).trans hfile, rfl⟩

end Disk

end EventSchema
