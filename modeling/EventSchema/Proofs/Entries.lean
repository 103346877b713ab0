import EventSchema.Tree
import Mathlib.Data.List.Sort
import Mathlib.Data.String.Basic

/-!
# Entries of maps

* `eq_of_pairwise_key_lt` — lists in the order of a key, by their members;
* `mem_of_find?`, `find?_eq_none_iff`, `mem_keys_iff` — keyed lists as lists of entries;
* `insert_perm`, `Sorted.ext` — insertion under a new key adds one entry, and keyed lists in order
  are equal if they have the same entries;
* `find?_filter`, `find?_insertAll`, `Sorted.ext_find?` — what is found in keyed lists, and that
  lists in order are equal if the same is found in them;
* `Tree.listed` — the items of a value that may also stand for itself alone;
* `sizeOf_lt_of_find?`, `sizeOf_lt_of_listed` — what is found in a map is smaller than the map.
-/

namespace EventSchema

/-- Lists in the order of a key are equal if they have the same members. -/
theorem eq_of_pairwise_key_lt {β : Type} (key : β → String) {items more : List β}
    (h : items.Pairwise fun d e => key d < key e) (hmore : more.Pairwise fun d e => key d < key e)
    (hmem : ∀ e, e ∈ items ↔ e ∈ more) : items = more := by
  have : Std.Irrefl fun d e : β => key d < key e := ⟨fun _ => lt_irrefl _⟩
  have : Std.Antisymm fun d e : β => key d < key e :=
    ⟨fun _ _ hde hed => (lt_asymm hde hed).elim⟩
  exact h.eq_of_mem_iff hmore hmem

namespace Keyed

variable {α : Type} {key : String} {value : α} {entries more : Keyed α} {e : String × α}

/-- What is found under a key is an entry. -/
theorem mem_of_find? (h : find? key entries = some value) : (key, value) ∈ entries := by
  induction entries with
  | nil => cases h
  | cons d rest ih =>
    obtain ⟨k, v⟩ := d
    rw [find?] at h
    split at h
    · next hk =>
      subst hk
      obtain rfl := Option.some.inj h
      exact List.mem_cons_self
    · exact List.mem_cons_of_mem _ (ih h)

/-- Nothing is found under a key that does not occur. -/
theorem find?_eq_none_iff : find? key entries = none ↔ ∀ e ∈ entries, e.1 ≠ key := by
  induction entries with
  | nil => simp
  | cons d rest ih =>
    obtain ⟨k, v⟩ := d
    by_cases hk : k = key
    · simp [find?, hk]
    · simp [find?, hk, ih]

/-- Something is found under each key that occurs, and under no other. -/
theorem mem_keys_iff : key ∈ keys entries ↔ (find? key entries).isSome = true := by
  rw [Option.isSome_iff_ne_none, ne_eq, find?_eq_none_iff, keys, List.mem_map]
  push Not
  rfl

/-- Every entry after several insertions is an inserted one or was there before. -/
theorem mem_or_mem_of_mem_insertAll (he : e ∈ insertAll entries more) : e ∈ entries ∨ e ∈ more := by
  induction more generalizing entries with
  | nil => exact .inl he
  | cons d rest ih =>
    rcases ih he with he | he
    · rcases eq_or_mem_of_mem_insert he with rfl | he
      · exact .inr List.mem_cons_self
      · exact .inl he
    · exact .inr (List.mem_cons_of_mem _ he)

/-- A value under a new key is one entry more. -/
theorem insert_perm (value : α) (h : find? key entries = none) :
    (insert key value entries).Perm ((key, value) :: entries) := by
  induction entries with
  | nil => exact .refl _
  | cons d rest ih =>
    obtain ⟨k, v⟩ := d
    have hk : key ≠ k := Ne.symm (find?_eq_none_iff.1 h (k, v) List.mem_cons_self)
    rw [insert, if_neg hk]
    split
    · exact .refl _
    · have hrest : find? key rest = none := by simpa [find?, Ne.symm hk] using h
      exact ((ih hrest).cons (k, v)).trans (.swap _ _ _)

/-- Two entries of a list in order are the same if their keys are. -/
theorem Sorted.eq_of_key (h : Sorted entries) {d : String × α} (hd : d ∈ entries) (he : e ∈ entries)
    (hkey : d.1 = e.1) : d = e :=
  List.inj_on_of_nodup_map (List.Pairwise.imp (fun hlt => ne_of_lt hlt) h) hd he hkey

/-- Lists in order are equal if they have the same entries. -/
theorem Sorted.ext (h : Sorted entries) (hmore : Sorted more)
    (hmem : ∀ e, e ∈ entries ↔ e ∈ more) : entries = more :=
  eq_of_pairwise_key_lt Prod.fst (List.pairwise_map.1 h) (List.pairwise_map.1 hmore) hmem

/-! ## What is found -/

/-- What is found after an insertion. -/
theorem find?_insert (key other : String) (value : α) (entries : Keyed α) :
    find? other (insert key value entries) =
      if other = key then some value else find? other entries := by
  split
  · next h => rw [h, find?_insert_self]
  · next h => exact find?_insert_of_ne h value entries

/-- What is found among entries that are chosen by their keys. -/
theorem find?_filter (p : String → Bool) (key : String) (entries : Keyed α) :
    find? key (entries.filter fun e => p e.1) = if p key then find? key entries else none := by
  induction entries with
  | nil => simp
  | cons d rest ih =>
    obtain ⟨k, v⟩ := d
    by_cases hk : k = key
    · subst hk
      by_cases hp : p k = true
      · simp [find?, hp]
      · simp [ih, hp]
    · by_cases hp : p k = true
      · simp [find?, hp, hk, ih]
      · simp [find?, hp, hk, ih]

/-- In a list in order, what is found under a key is its entry. -/
theorem Sorted.find?_eq_some_iff (h : Sorted entries) :
    find? key entries = some value ↔ (key, value) ∈ entries := by
  refine ⟨mem_of_find?, fun hmem => ?_⟩
  cases hfound : find? key entries with
  | none => exact absurd rfl (find?_eq_none_iff.1 hfound _ hmem)
  | some found =>
    have heq : (key, found) = (key, value) := h.eq_of_key (mem_of_find? hfound) hmem rfl
    rw [(Prod.mk.inj heq).2]

/-- Lists in order are equal if the same is found in them. -/
theorem Sorted.ext_find? (h : Sorted entries) (hmore : Sorted more)
    (hfind : ∀ key, find? key entries = find? key more) : entries = more := by
  refine h.ext hmore fun e => ?_
  rw [← h.find?_eq_some_iff, hfind, hmore.find?_eq_some_iff]

/-- Entries chosen from a list in order are in order. -/
theorem Sorted.filter (h : Sorted entries) (p : String × α → Bool) : Sorted (entries.filter p) :=
  List.Pairwise.sublist (List.filter_sublist.map _) h

/-- What is inserted before entries are chosen is chosen or left out like the others. -/
theorem Sorted.filter_insert (h : Sorted entries) (p : String → Bool) (key : String) (value : α) :
    (Keyed.insert key value entries).filter (fun e => p e.1) =
      if p key then Keyed.insert key value (entries.filter fun e => p e.1)
      else entries.filter fun e => p e.1 := by
  have hsorted := (h.insert key value).filter fun e => p e.1
  split
  · next hp =>
    refine hsorted.ext_find? ((h.filter _).insert key value) fun other => ?_
    rw [find?_filter, find?_insert, find?_insert, find?_filter]
    split
    · rfl
    · split
      · next hother heq => exact absurd (heq ▸ hp) hother
      · rfl
  · next hp =>
    refine hsorted.ext_find? (h.filter _) fun other => ?_
    rw [find?_filter, find?_insert, find?_filter]
    split
    · next hother =>
      have hne : other ≠ key := by
        rintro rfl
        exact hp hother
      rw [if_neg hne]
    · rfl

/-- What is inserted under a key is erased with the key. -/
theorem erase_insert (key : String) (value : α) (entries : Keyed α) :
    erase key (insert key value entries) = erase key entries := by
  induction entries with
  | nil => simp [erase, insert]
  | cons d rest ih =>
    obtain ⟨k, v⟩ := d
    rw [insert]
    split
    · next hk => simp [erase, hk]
    · split
      · simp [erase]
      · rw [erase, List.filter_cons, ← erase, ih, erase, erase, List.filter_cons]

/-- Several insertions keep the keys in order. -/
theorem Sorted.insertAll (h : Sorted entries) (more : Keyed α) :
    Sorted (Keyed.insertAll entries more) := by
  induction more generalizing entries with
  | nil => exact h
  | cons d rest ih => exact ih (h.insert d.1 d.2)

/-- In a list in order the first key does not occur again. -/
theorem Sorted.find?_tail (h : Sorted ((key, value) :: entries)) : find? key entries = none := by
  obtain ⟨hfirst, -⟩ := List.pairwise_cons.1 h
  exact find?_eq_none_iff.2 fun e he => ne_of_gt (hfirst e.1 (List.mem_map_of_mem he))

/-- After the insertion of a list in order, its values come first. -/
theorem find?_insertAll (hmore : Sorted more) (key : String) (entries : Keyed α) :
    find? key (insertAll entries more) = (find? key more).or (find? key entries) := by
  induction more generalizing entries with
  | nil => rfl
  | cons d rest ih =>
    obtain ⟨k, v⟩ := d
    rw [insertAll, List.foldl_cons, ← insertAll, ih (List.pairwise_cons.1 hmore).2, find?_insert]
    by_cases hk : key = k
    · subst hk
      simp [find?, hmore.find?_tail]
    · simp [find?, hk, Ne.symm hk]

end Keyed

variable {key : String} {fields : Fields} {t u : Tree}

/-- A value under a key is smaller than the map. -/
theorem sizeOf_lt_of_find? (h : Keyed.find? key fields = some t) :
    sizeOf t < sizeOf (Tree.map fields) := by
  have hlt := List.sizeOf_lt_of_mem (Keyed.mem_of_find? h)
  simp only [Prod.mk.sizeOf_spec] at hlt
  simp only [Tree.map.sizeOf_spec]
  omega

/-- The items of a sequence. Any other value is its only item. -/
def Tree.listed : Tree → List Tree
  | .seq items => items
  | t => [t]

/-- What a value lists is itself, or one of its items if it is a sequence. -/
theorem Tree.eq_or_mem_of_mem_listed (ht : t ∈ u.listed) :
    t = u ∨ ∃ items, u = .seq items ∧ t ∈ items := by
  cases u with
  | seq items => exact .inr ⟨items, rfl, ht⟩
  | _ => exact .inl (List.mem_singleton.1 ht)

/-- An item that is listed under a key is smaller than the map. -/
theorem sizeOf_lt_of_listed (h : Keyed.find? key fields = some u) (ht : t ∈ u.listed) :
    sizeOf t < sizeOf (Tree.map fields) := by
  have hlt := sizeOf_lt_of_find? h
  rcases Tree.eq_or_mem_of_mem_listed ht with rfl | ⟨items, rfl, hitem⟩
  · exact hlt
  · have hitem := List.sizeOf_lt_of_mem hitem
    simp only [Tree.seq.sizeOf_spec] at hlt
    omega

end EventSchema
