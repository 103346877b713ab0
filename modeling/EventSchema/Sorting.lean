/-!
# Lists in order

A list that is put in order element by element, where an element that is there already is not put
in again. The order is a test whether one element is before another.

* `insertOnce`, `sortOnce` — one element more, and a whole list;
* `mem_insertOnce`, `mem_sortOnce` — nothing is lost and nothing is added;
* `pairwise_insertOnce`, `pairwise_sortOnce` — if the order is linear, the result is in order, and
  so holds each element once.
-/

namespace EventSchema

variable {α : Type} [DecidableEq α]

/-- An element put into a list in order, unless it is there. -/
def insertOnce (before : α → α → Bool) (a : α) : List α → List α
  | [] => [a]
  | b :: rest =>
    if a = b then b :: rest
    else if before a b then a :: b :: rest
    else b :: insertOnce before a rest

/-- The elements of a list in order, each once. -/
def sortOnce (before : α → α → Bool) (items : List α) : List α :=
  items.foldl (fun acc a => insertOnce before a acc) []

variable {before : α → α → Bool} {a b : α} {items : List α}

/-- The members after an insertion. -/
theorem mem_insertOnce : a ∈ insertOnce before b items ↔ a = b ∨ a ∈ items := by
  induction items with
  | nil => simp [insertOnce]
  | cons c rest ih =>
    simp only [insertOnce]
    split
    · next h => subst h; simp
    · split
      · simp
      · simp only [List.mem_cons, ih]; grind

/-- The members of a list that was put in order. -/
theorem mem_sortOnce : a ∈ sortOnce before items ↔ a ∈ items := by
  have key : ∀ (items acc : List α),
      a ∈ items.foldl (fun acc b => insertOnce before b acc) acc ↔ a ∈ acc ∨ a ∈ items := by
    intro items
    induction items with
    | nil => simp
    | cons b rest ih =>
      intro acc
      simp only [List.foldl_cons, ih, mem_insertOnce, List.mem_cons]
      grind
  simpa [sortOnce] using key items []

section Linear

variable (htrans : ∀ a b c, before a b = true → before b c = true → before a c = true)
  (htotal : ∀ a b, before a b = true ∨ a = b ∨ before b a = true)
include htrans htotal

/-- An element is inserted where it belongs. -/
theorem pairwise_insertOnce (h : items.Pairwise fun a b => before a b = true) (a : α) :
    (insertOnce before a items).Pairwise fun a b => before a b = true := by
  induction items with
  | nil => exact List.pairwise_singleton _ _
  | cons b rest ih =>
    obtain ⟨hfirst, hrest⟩ := List.pairwise_cons.1 h
    rw [insertOnce]
    split
    · exact h
    · next hne =>
      split
      · next hab =>
        refine List.pairwise_cons.2 ⟨fun c hc => ?_, h⟩
        rcases List.mem_cons.1 hc with rfl | hc
        · exact hab
        · exact htrans _ _ _ hab (hfirst c hc)
      · next hab =>
        refine List.pairwise_cons.2 ⟨fun c hc => ?_, ih hrest⟩
        rcases mem_insertOnce.1 hc with rfl | hc
        · exact ((htotal c b).resolve_left hab).resolve_left hne
        · exact hfirst c hc

/-- A list that was put in order is in order. -/
theorem pairwise_sortOnce (items : List α) :
    (sortOnce before items).Pairwise fun a b => before a b = true := by
  have key : ∀ items acc : List α, (acc.Pairwise fun a b => before a b = true) →
      (items.foldl (fun acc a => insertOnce before a acc) acc).Pairwise
        fun a b => before a b = true := by
    intro items
    induction items with
    | nil => exact fun _ hacc => hacc
    | cons a rest ih => exact fun acc hacc => ih _ (pairwise_insertOnce htrans htotal hacc a)
  exact key items [] .nil

end Linear

end EventSchema
