/-!
# Keyed lists

Values under string keys, in the order of the keys. Strings are ordered by code points.

* `find?`, `insert`, `erase` — the value under a key, and what changes it;
* `find?_insert_self`, `find?_insert_of_ne` — the last value inserted under a key stays;
* `Sorted`, `Sorted.insert` — insertion keeps the keys strictly increasing, so a key occurs once.
-/

namespace EventSchema

/-- Values under string keys. -/
abbrev Keyed (α : Type) := List (String × α)

namespace Keyed

variable {α : Type}

/-- The value under a key. -/
def find? (key : String) : Keyed α → Option α
  | [] => none
  | (k, v) :: rest => if k = key then some v else find? key rest

/-- Puts a value under a key, in place of the one there. -/
def insert (key : String) (value : α) : Keyed α → Keyed α
  | [] => [(key, value)]
  | (k, v) :: rest =>
    if key = k then (key, value) :: rest
    else if key < k then (key, value) :: (k, v) :: rest
    else (k, v) :: insert key value rest

/-- The list without the entries under a key. -/
def erase (key : String) (entries : Keyed α) : Keyed α := entries.filter fun e => e.1 != key

/-- Whether a key occurs. -/
def has (key : String) (entries : Keyed α) : Bool := (find? key entries).isSome

/-- The keys in their order. -/
def keys (entries : Keyed α) : List String := entries.map (·.1)

/-- Inserts all entries of a list in turn, so that a later one replaces an earlier one. -/
def insertAll (entries : Keyed α) (more : List (String × α)) : Keyed α :=
  more.foldl (fun acc e => insert e.1 e.2 acc) entries

/-- The keyed list of some entries, a later one replacing an earlier one. -/
def ofList (entries : List (String × α)) : Keyed α := insertAll [] entries

/-- The keys are strictly increasing. -/
def Sorted (entries : Keyed α) : Prop := (keys entries).Pairwise (· < ·)

@[simp] theorem find?_nil (key : String) : find? key ([] : Keyed α) = none := rfl

/-- The value just inserted is the one under its key. -/
@[simp] theorem find?_insert_self (key : String) (value : α) (entries : Keyed α) :
    find? key (insert key value entries) = some value := by
  induction entries with
  | nil => simp [insert, find?]
  | cons e rest ih =>
    obtain ⟨k, v⟩ := e
    simp only [insert]
    split
    · simp [find?]
    · split
      · simp [find?]
      · next h _ => simp [find?, Ne.symm h, ih]

/-- Inserting leaves the other keys alone. -/
theorem find?_insert_of_ne {key other : String} (h : other ≠ key) (value : α) (entries : Keyed α) :
    find? other (insert key value entries) = find? other entries := by
  induction entries with
  | nil => simp [insert, find?, Ne.symm h]
  | cons e rest ih =>
    obtain ⟨k, v⟩ := e
    simp only [insert]
    split
    · next hk => subst hk; simp [find?, Ne.symm h]
    · split
      · simp [find?, Ne.symm h]
      · simp only [find?, ih]

variable {key : String} {value : α} {entries : Keyed α} {e : String × α}

/-- Every entry after an insertion is the inserted one or was there before. -/
theorem eq_or_mem_of_mem_insert (he : e ∈ insert key value entries) :
    e = (key, value) ∨ e ∈ entries := by
  induction entries with
  | nil => exact .inl (List.mem_singleton.1 he)
  | cons d rest ih =>
    obtain ⟨k, v⟩ := d
    rw [insert] at he
    split at he
    · rcases List.mem_cons.1 he with rfl | he
      · exact .inl rfl
      · exact .inr (List.mem_cons_of_mem _ he)
    · split at he
      · exact List.mem_cons.1 he
      · rcases List.mem_cons.1 he with rfl | he
        · exact .inr List.mem_cons_self
        · exact (ih he).imp_right (List.mem_cons_of_mem _)

/-- The keys after an insertion. -/
theorem mem_keys_insert {other : String} (h : other ∈ keys (insert key value entries)) :
    other = key ∨ other ∈ keys entries := by
  obtain ⟨e, he, rfl⟩ := List.mem_map.1 h
  rcases eq_or_mem_of_mem_insert he with rfl | he
  · exact .inl rfl
  · exact .inr (List.mem_map_of_mem he)

/-- Where there are no entries, they are in order. -/
theorem sorted_nil : Sorted ([] : Keyed α) := List.Pairwise.nil

/-- Insertion keeps the keys in order. -/
theorem Sorted.insert (h : Sorted entries) (key : String) (value : α) :
    Sorted (Keyed.insert key value entries) := by
  induction entries with
  | nil => exact List.pairwise_singleton _ _
  | cons d rest ih =>
    obtain ⟨k, v⟩ := d
    obtain ⟨hfirst, hrest⟩ := List.pairwise_cons.1 h
    rw [Keyed.insert]
    split
    · next hk =>
      subst hk
      exact List.pairwise_cons.2 ⟨hfirst, hrest⟩
    · next hk =>
      split
      · next hlt =>
        refine List.pairwise_cons.2 ⟨fun other hother => ?_, h⟩
        rcases List.mem_cons.1 hother with rfl | hother
        · exact hlt
        · exact String.lt_trans hlt (hfirst other hother)
      · next hlt =>
        refine List.pairwise_cons.2 ⟨fun other hother => ?_, ih hrest⟩
        rcases mem_keys_insert hother with rfl | hother
        · exact Std.lt_of_le_of_ne (String.not_lt.1 hlt) (Ne.symm hk)
        · exact hfirst other hother

end Keyed

end EventSchema
