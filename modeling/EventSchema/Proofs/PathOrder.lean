import EventSchema.Library
import EventSchema.Proofs.SettledPath
import Mathlib.Data.List.Sort
import Mathlib.Data.String.Basic

/-!
# The order of paths

Document paths are ordered by their texts, and a text spells one path only, so the order is linear.

* `before_trans`, `before_or_eq_or_before` — of two different paths one is before the other;
* `Ordered`, `ordered_sortOnce` — a list in order, and sorting gives one;
* `Ordered.ext` — lists in order with the same members are equal;
* `ordered_documents` — the documents of a library stand in path order, each once.
-/

namespace EventSchema

namespace DocumentPath

variable {p q r : DocumentPath} {paths : List DocumentPath}

/-- The order of paths is that of their texts. -/
theorem before_iff : p.before q = true ↔ p.text < q.text := by
  simp [before]

/-- No path is before itself. -/
theorem not_before_self (p : DocumentPath) : ¬ p.before p = true := fun h =>
  lt_irrefl _ (before_iff.1 h)

/-- The order is transitive. -/
theorem before_trans (hpq : p.before q = true) (hqr : q.before r = true) : p.before r = true :=
  before_iff.2 (lt_trans (before_iff.1 hpq) (before_iff.1 hqr))

/-- Of two different paths one is before the other. -/
theorem before_or_eq_or_before (p q : DocumentPath) :
    p.before q = true ∨ p = q ∨ q.before p = true := by
  rcases lt_trichotomy p.text q.text with h | h | h
  · exact .inl (before_iff.2 h)
  · exact .inr (.inl (text_injective h))
  · exact .inr (.inr (before_iff.2 h))

/-- Paths in order, each once. -/
def Ordered (paths : List DocumentPath) : Prop := paths.Pairwise fun p q => p.before q = true

/-- Sorting puts paths in order. -/
theorem ordered_sortOnce (paths : List DocumentPath) : Ordered (sortOnce before paths) := by
  have htrans : ∀ p q r : DocumentPath, p.before q = true → q.before r = true →
      p.before r = true := fun _ _ _ => before_trans
  exact pairwise_sortOnce htrans before_or_eq_or_before paths

/-- In a list in order, what is before a path stands in front of it. -/
theorem Ordered.mem_of_before {done rest : List DocumentPath} (h : Ordered (done ++ p :: rest))
    (hq : q ∈ done ++ p :: rest) (hbefore : q.before p = true) : q ∈ done := by
  rcases List.mem_append.1 hq with hq | hq
  · exact hq
  · obtain ⟨hfirst, -⟩ := List.pairwise_cons.1 (List.pairwise_append.1 h).2.1
    rcases List.mem_cons.1 hq with rfl | hq
    · exact absurd hbefore (not_before_self q)
    · exact absurd (before_trans hbefore (hfirst q hq)) (not_before_self q)

/-- In a list in order, what stands in front of a path is before it. -/
theorem Ordered.before_of_mem {done rest : List DocumentPath} (h : Ordered (done ++ p :: rest))
    (hq : q ∈ done) : q.before p = true :=
  (List.pairwise_append.1 h).2.2 q hq p List.mem_cons_self

/-- Lists in order are equal if they have the same members. -/
theorem Ordered.ext {more : List DocumentPath} (h : Ordered paths) (hmore : Ordered more)
    (hmem : ∀ p, p ∈ paths ↔ p ∈ more) : paths = more := by
  have : Std.Irrefl fun p q : DocumentPath => p.before q = true := ⟨not_before_self⟩
  have : Std.Antisymm fun p q : DocumentPath => p.before q = true :=
    ⟨fun p _ hpq hqp => absurd (before_trans hpq hqp) (not_before_self p)⟩
  exact h.eq_of_mem_iff hmore hmem

end DocumentPath

/-- The documents of a library stand in path order, each once. -/
theorem Library.ordered_documents (source : Source) (paths : List DocumentPath) :
    DocumentPath.Ordered (Library.ofPaths source paths).documents :=
  DocumentPath.ordered_sortOnce paths

end EventSchema
