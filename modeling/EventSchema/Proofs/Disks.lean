import EventSchema.Disk
import EventSchema.Proofs.SettledPath
import Mathlib.Order.Lattice

/-!
# Changes on a disk

A change at one place leaves the others as they were. Where a path leads depends on the directories
alone, so it leads to the same place after a file was written, moved or erased.

* `node?_set_self`, `node?_set_of_ne` — what stands where after a change;
* `Disk.Vacant` — a place that nothing was ever put at: what is put there and erased again leaves no
  trace;
* `locate_eq_ok_iff`, `Disk.SameDirectories` — where a path leads, and disks that differ in files
  only, on which paths lead to the same places;
* `sameDirectories_set` — a file takes the place of a file, or of nothing;
* `isOrdinary_of_locate`, `eq_segments_of_locate` — a path leads to a place with ordinary names, and
  that of a document to the place that its segments name.
-/

namespace EventSchema

/-- No measure is more than the greatest one. -/
theorem le_foldl_max {α : Type} (measure : α → Nat) {xs : List α} {x : α} (hx : x ∈ xs) (n : Nat) :
    measure x ≤ xs.foldl (fun n y => max n (measure y)) n := by
  have hgrows : ∀ (xs : List α) (n : Nat), n ≤ xs.foldl (fun n y => max n (measure y)) n := by
    intro xs
    induction xs with
    | nil => exact fun n => le_rfl
    | cons y rest ih => exact fun n => (le_max_left n (measure y)).trans (ih _)
  induction xs generalizing n with
  | nil => cases hx
  | cons y rest ih =>
    rw [List.foldl_cons]
    rcases List.mem_cons.1 hx with rfl | hx
    · exact (le_max_right n (measure x)).trans (hgrows rest _)
    · exact ih hx _

namespace Disk

variable {d d' : Disk} {l m : Location} {n : DiskNode} {path : String}

/-! ## Places -/

/-- Below the root it is the list that tells what stands at a place. -/
theorem node?_of_ne_nil (hl : l ≠ []) : d.node? l = d.nodes.lookup l := by
  cases l with
  | nil => exact absurd rfl hl
  | cons s rest => rfl

/-- What stands at a place below the root is listed there. -/
theorem mem_nodes_of_node? (hl : l ≠ []) (h : d.node? l = some n) : (l, n) ∈ d.nodes := by
  rw [node?_of_ne_nil hl] at h
  obtain ⟨front, back, hnodes, -⟩ := List.lookup_eq_some_iff.1 h
  rw [hnodes]
  exact List.mem_append_right front List.mem_cons_self

/-- Looking up one place does not ask about the others. -/
theorem lookup_filter_of_ne (h : m ≠ l) (nodes : List (Location × DiskNode)) :
    (nodes.filter fun e => e.1 ≠ l).lookup m = nodes.lookup m := by
  induction nodes with
  | nil => rfl
  | cons e rest ih =>
    by_cases hel : e.1 = l
    · have hme : (m == e.1) = false := by
        rw [hel]
        exact beq_eq_false_iff_ne.2 h
      rw [List.filter_cons_of_neg (by simpa using hel), ih, List.lookup_cons, hme]
    · rw [List.filter_cons_of_pos (by simpa using hel), List.lookup_cons, List.lookup_cons, ih]

/-- What was put at a place stands there. -/
theorem node?_set_self (hl : l ≠ []) : (d.set l n).node? l = some n := by
  rw [node?_of_ne_nil hl, set, List.lookup_cons, beq_self_eq_true]

/-- What was put at a place does not show at another one. -/
theorem node?_set_of_ne (h : m ≠ l) : (d.set l n).node? m = d.node? m := by
  cases m with
  | nil => rfl
  | cons s rest =>
    rw [node?_of_ne_nil (List.cons_ne_nil s rest), node?_of_ne_nil (List.cons_ne_nil s rest), set,
      List.lookup_cons, beq_eq_false_iff_ne.2 h]
    exact lookup_filter_of_ne h d.nodes

/-- What is put at a place takes the place of what was put there before. -/
theorem set_set (n' : DiskNode) : (d.set l n).set l n' = d.set l n' := by
  simp [set]

/-- Nothing is listed at a place. -/
def Vacant (d : Disk) (l : Location) : Prop := ∀ e ∈ d.nodes, e.1 ≠ l

/-- Erasing what was put at a vacant place gives the disk back. -/
theorem erase_set (h : d.Vacant l) : (d.set l n).erase l = d := by
  have hsame : d.nodes.filter (fun e => e.1 ≠ l) = d.nodes :=
    List.filter_eq_self.2 fun e he => by simpa using h e he
  rw [erase, set, List.filter_cons_of_neg (by simp), List.filter_filter]
  simp only [Bool.and_self, hsame]

/-- Below the root there is nothing at a vacant place. -/
theorem node?_of_vacant (h : d.Vacant l) (hl : l ≠ []) : d.node? l = none := by
  rw [node?_of_ne_nil hl, List.lookup_eq_none_iff]
  intro e he
  rw [bne_iff_ne]
  exact (h e he).symm

/-! ## Directories -/

/-- There is a directory at a place. -/
theorem hasDirectory_iff : d.hasDirectory l = true ↔ d.node? l = some .directory := by
  rw [hasDirectory, beq_iff_eq]

/-- The root is a directory. -/
theorem ne_nil_of_hasDirectory (h : d.hasDirectory l = false) : l ≠ [] := by
  rintro rfl
  cases h

/-- A path that leads somewhere is walked, from the root or from the working directory. -/
theorem locate_eq_ok_iff :
    d.locate path = .ok l ↔
      (path.toList.contains '\x00' = false ∧ path ≠ "" ∧ size path.toList ≤ pathLimit) ∧
        d.walk (if Path.isAbsolute path.toList then [] else d.working)
          (Path.split path.toList) = .ok l := by
  rw [locate]
  split
  · next hzero => simp only [hzero, Bool.true_eq_false, reduceCtorEq, false_and]
  · next hzero =>
    rw [Bool.not_eq_true] at hzero
    split
    · next hempty => simp [hempty]
    · next hempty =>
      split
      · next hlong => simp [Nat.not_le.2 hlong]
      · next hshort =>
        simp only [hzero, hempty, Nat.le_of_not_lt hshort, ne_eq, not_false_eq_true, true_and]

/-- Two disks have the same directories, and one working directory. -/
structure SameDirectories (d d' : Disk) : Prop where
  working : d'.working = d.working
  hasDirectory : ∀ l, d'.hasDirectory l = d.hasDirectory l

/-- A file is put where no directory is. -/
theorem sameDirectories_set (h : d.hasDirectory l = false) (content : List UInt8) (mode : Nat) :
    d.SameDirectories (d.set l (.file content mode)) := by
  refine ⟨rfl, fun m => ?_⟩
  by_cases hm : m = l
  · rw [hm, h, hasDirectory, node?_set_self (ne_nil_of_hasDirectory h)]
    rfl
  · rw [hasDirectory, node?_set_of_ne hm, hasDirectory]

namespace SameDirectories

/-- Which of two disks is the first does not matter. -/
theorem symm (h : d.SameDirectories d') : d'.SameDirectories d :=
  ⟨h.working.symm, fun l => (h.hasDirectory l).symm⟩

/-- A walk that arrives does so on both disks. -/
theorem walk (h : d.SameDirectories d') {segments : List Path.Segment}
    (hwalk : d.walk l segments = .ok m) : d'.walk l segments = .ok m := by
  induction segments generalizing l with
  | nil => exact hwalk
  | cons s rest ih =>
    cases hnode : d.node? l with
    | none => simp [Disk.walk, hnode] at hwalk
    | some n =>
      cases n with
      | file content mode => simp [Disk.walk, hnode] at hwalk
      | directory =>
        have hnode' : d'.node? l = some .directory := by
          rw [← hasDirectory_iff, h.hasDirectory, hasDirectory_iff]
          exact hnode
        simp only [Disk.walk, hnode] at hwalk
        simp only [Disk.walk, hnode']
        split
        · next hlong => simp [hlong] at hwalk
        · next hshort =>
          rw [if_neg hshort] at hwalk
          exact ih hwalk

/-- A path that leads somewhere leads to the same place on both disks. -/
theorem locate (h : d.SameDirectories d') (hlocate : d.locate path = .ok l) :
    d'.locate path = .ok l := by
  obtain ⟨hvalid, hwalk⟩ := locate_eq_ok_iff.1 hlocate
  rw [locate_eq_ok_iff, h.working]
  exact ⟨hvalid, h.walk hwalk⟩

/-- A file that is the same on both disks is read on both. -/
theorem read (h : d.SameDirectories d') {content : List UInt8} (hread : d.read path = .ok content)
    (hsame : ∀ l, d.locate path = .ok l → d'.node? l = d.node? l) :
    d'.read path = .ok content := by
  rw [Disk.read] at hread ⊢
  cases hlocate : d.locate path with
  | error e => simp [hlocate, bind, Except.bind] at hread
  | ok l =>
    simp only [hlocate, bind, Except.bind, contentAt] at hread
    simpa only [h.locate hlocate, bind, Except.bind, contentAt, hsame l hlocate] using hread

end SameDirectories

/-- What was written is read under every path that leads there. -/
theorem read_set (h : d.hasDirectory l = false) (hlocate : d.locate path = .ok l)
    (content : List UInt8) (mode : Nat) :
    (d.set l (.file content mode)).read path = .ok content := by
  have hlocate' := (sameDirectories_set h content mode).locate hlocate
  simp [Disk.read, hlocate', bind, Except.bind, contentAt,
    node?_set_self (ne_nil_of_hasDirectory h)]

/-! ## Where paths lead -/

/-- A walk from a place with ordinary names arrives at such a place. -/
theorem isOrdinary_of_walk {segments : List Path.Segment} (hl : ∀ s ∈ l, Path.IsOrdinary s)
    (hsegments : ∀ s ∈ segments, '/' ∉ s) (h : d.walk l segments = .ok m) :
    ∀ s ∈ m, Path.IsOrdinary s := by
  induction segments generalizing l with
  | nil =>
    obtain rfl := Except.ok.inj h
    exact hl
  | cons s rest ih =>
    simp only [walk] at h
    split at h
    · split at h
      · cases h
      · refine ih ?_ (fun t ht => hsegments t (List.mem_cons_of_mem _ ht)) h
        rw [step]
        split
        · exact hl
        · next hdot =>
          split
          · exact fun t ht => hl t (List.dropLast_subset l ht)
          · next hdots =>
            intro t ht
            rcases List.mem_append.1 ht with ht | ht
            · exact hl t ht
            · obtain rfl := List.mem_singleton.1 ht
              exact ⟨fun h => hdot (.inl h), fun h => hdot (.inr h), hdots,
                hsegments t List.mem_cons_self⟩
    · cases h
    · cases h

/-- From a working directory with ordinary names paths lead to places with such names. -/
theorem isOrdinary_of_locate (hworking : ∀ s ∈ d.working, Path.IsOrdinary s)
    (h : d.locate path = .ok l) : ∀ s ∈ l, Path.IsOrdinary s := by
  refine isOrdinary_of_walk ?_ Path.slash_not_mem_of_mem_split (locate_eq_ok_iff.1 h).2
  split
  · exact nofun
  · exact hworking

/-- A walk along ordinary names goes down one by one. -/
theorem eq_append_of_walk {segments : List Path.Segment}
    (hsegments : ∀ s ∈ segments, Path.IsOrdinary s) (h : d.walk l segments = .ok m) :
    m = l ++ segments := by
  induction segments generalizing l with
  | nil =>
    obtain rfl := Except.ok.inj h
    rw [List.append_nil]
  | cons s rest ih =>
    obtain ⟨hnil, hdot, hdots, -⟩ := hsegments s List.mem_cons_self
    simp only [walk] at h
    split at h
    · split at h
      · cases h
      · have hstep : step l s = l ++ [s] := by simp [step, hnil, hdot, hdots]
        rw [ih (fun t ht => hsegments t (List.mem_cons_of_mem _ ht)) h, hstep, List.append_assoc,
          List.singleton_append]
    · cases h
    · cases h

/-- The path of a document leads to the place that its segments name. -/
theorem eq_segments_of_locate {p : DocumentPath} (h : d.locate p.text = .ok l) :
    l = p.segments := by
  have hwalk := (locate_eq_ok_iff.1 h).2
  have hroot : ∀ segments, d.walk [] ([] :: segments) = d.walk [] segments := fun segments => by
    simp [walk, node?, size, step]
  have hsplit : Path.split ('/' :: Path.join p.segments) =
      [] :: Path.split (Path.join p.segments) := by simp [Path.split]
  rw [DocumentPath.toList_text, Path.isAbsolute_slash, if_pos rfl, hsplit, hroot] at hwalk
  cases hsegments : p.segments with
  | nil =>
    rw [hsegments, Path.join, Path.split, hroot] at hwalk
    exact (Except.ok.inj hwalk).symm
  | cons s rest =>
    have hne : p.segments ≠ [] := hsegments ▸ List.cons_ne_nil s rest
    rw [Path.split_join hne fun t ht => (p.ordinary t ht).2.2.2] at hwalk
    rw [eq_append_of_walk p.ordinary hwalk, List.nil_append, hsegments]

/-- The path of a document is read from the place that its segments name. -/
theorem contentAt_of_read {p : DocumentPath} {content : List UInt8}
    (h : d.read p.text = .ok content) : d.contentAt p.segments = .ok content := by
  rw [Disk.read] at h
  cases hlocate : d.locate p.text with
  | error e => simp [hlocate, bind, Except.bind] at h
  | ok l =>
    rw [← eq_segments_of_locate hlocate]
    simpa [hlocate, bind, Except.bind] using h

end Disk

/-- A place with ordinary names is that of the document that it names. -/
theorem DocumentPath.segments_ofSegments {segments : List Path.Segment}
    (h : ∀ s ∈ segments, Path.IsOrdinary s) : (ofSegments segments).segments = segments := by
  have hsplit : segments.flatMap Path.split = segments := by
    induction segments with
    | nil => rfl
    | cons s rest ih =>
      rw [List.flatMap_cons, Path.split_of_not_mem (h s List.mem_cons_self).2.2.2,
        ih fun t ht => h t (List.mem_cons_of_mem s ht), List.singleton_append]
  simp only [ofSegments, hsplit, Path.settle_of_isOrdinary true h]

/-- The segments of a document name the document. -/
theorem DocumentPath.ofSegments_segments (p : DocumentPath) : ofSegments p.segments = p := by
  apply text_injective
  rw [text, text, segments_ofSegments p.ordinary]

end EventSchema
