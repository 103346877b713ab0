import EventSchema.Proofs.Layers
import Mathlib.Data.List.Induction

/-!
# Joined lists of values

Joining keeps the lower list as it is and adds to it what is new in the upper one. Values are
compared by `Tree.same`, so a value is new if no equal one came before it.

* `same_congr` — equal values are equal to the same values;
* `Tree.distinct`, `NoRepeats` — a list with first occurrences only, and a list that has no others;
* `joinItems_eq`, `joinItems_assoc` — what joining adds, and that it may be grouped in any way;
* `any_joinItems`, `distinct_joinItems` — a joined list has the values of the two, and its first
  occurrences are those of one list put behind the other;
* `noRepeats_joinItems_iff` — it repeats no value just if the lower list repeats none.
-/

namespace EventSchema

/-- Equal numbers are equal to the same numbers. -/
theorem Number.same_congr {x y : Number} (h : x.same y = true) (z : Number) :
    x.same z = y.same z := by
  cases x with
  | int x =>
    cases y with
    | int y =>
      obtain rfl : x = y := by simpa [same] using h
      rfl
    | real => cases h
  | real x =>
    cases y with
    | int => cases h
    | real y =>
      cases z with
      | int => rfl
      | real z =>
        simp only [same, Double.same, Bool.and_eq_true, Bool.or_eq_true, beq_iff_eq] at h ⊢
        obtain ⟨hmantissa, hzero | ⟨hexponent, hnegative⟩⟩ := h
        -- the sign and the exponent of a zero do not matter
        · simp [← hmantissa, hzero]
        · rw [hmantissa, hexponent, hnegative]

namespace Tree

mutual

/-- Equal values are equal to the same values. -/
theorem same_congr (t u v : Tree) (h : t.same u = true) : t.same v = u.same v := by
  cases t with
  | null =>
    cases u with
    | null => rfl
    | _ => cases h
  | bool x =>
    cases u with
    | bool y =>
      obtain rfl : x = y := by simpa [same] using h
      rfl
    | _ => cases h
  | num x =>
    cases u with
    | num y =>
      cases v with
      | num z => exact Number.same_congr h z
      | _ => rfl
    | _ => cases h
  | str x =>
    cases u with
    | str y =>
      obtain rfl : x = y := by simpa [same] using h
      rfl
    | _ => cases h
  | seq ts =>
    cases u with
    | seq us =>
      cases v with
      | seq vs => exact sameItems_congr ts us vs h
      | _ => rfl
    | _ => cases h
  | map fs =>
    cases u with
    | map gs =>
      cases v with
      | map hs => exact sameFields_congr fs gs hs h
      | _ => rfl
    | _ => cases h
termination_by structural t

/-- The same for the items of sequences. -/
theorem sameItems_congr (ts us vs : List Tree) (h : sameItems ts us = true) :
    sameItems ts vs = sameItems us vs := by
  cases ts with
  | nil =>
    cases us with
    | nil => rfl
    | cons u us => cases h
  | cons t ts =>
    cases us with
    | nil => cases h
    | cons u us =>
      cases vs with
      | nil => rfl
      | cons v vs =>
        rw [sameItems, Bool.and_eq_true] at h
        rw [sameItems, sameItems, same_congr t u v h.1, sameItems_congr ts us vs h.2]
termination_by structural ts

/-- The same for the fields of maps. -/
theorem sameFields_congr (fs gs hs : List (String × Tree)) (h : sameFields fs gs = true) :
    sameFields fs hs = sameFields gs hs := by
  cases fs with
  | nil =>
    cases gs with
    | nil => rfl
    | cons g gs => cases h
  | cons f fs =>
    cases gs with
    | nil => cases h
    | cons g gs =>
      cases hs with
      | nil => rfl
      | cons e hs =>
        obtain ⟨k, t⟩ := f
        obtain ⟨l, u⟩ := g
        obtain ⟨m, v⟩ := e
        simp only [sameFields, Bool.and_eq_true, beq_iff_eq] at h
        obtain ⟨⟨rfl, hvalue⟩, hrest⟩ := h
        simp only [sameFields, same_congr t u v hvalue, sameFields_congr fs gs hs hrest]
termination_by structural fs

end

variable {lower upper items more : List Tree} {t v : Tree}

/-- The values of a list, each at its first place only. -/
def distinct (items : List Tree) : List Tree :=
  items.eraseDupsBy fun later first => first.same later

/-- No value of a list is equal to one before it. -/
def NoRepeats (items : List Tree) : Prop :=
  items.Pairwise fun first later => first.same later = false

instance (items : List Tree) : Decidable (NoRepeats items) :=
  inferInstanceAs (Decidable (items.Pairwise fun first later => first.same later = false))

/-! ## Joining -/

/-- A value is added if it is new. -/
theorem joinItems_cons (lower : List Tree) (t : Tree) (upper : List Tree) :
    joinItems lower (t :: upper) =
      joinItems (if lower.any (·.same t) then lower else lower ++ [t]) upper := rfl

/-- Two lists can be joined one after the other. -/
theorem joinItems_append (lower items more : List Tree) :
    joinItems lower (items ++ more) = joinItems (joinItems lower items) more :=
  List.foldl_append

/-- Joining adds the values that are not in the lower list, each at its first place. -/
theorem joinItems_eq (lower upper : List Tree) :
    joinItems lower upper = lower ++ distinct (upper.filter fun t => !lower.any (·.same t)) := by
  induction upper generalizing lower with
  | nil => simp [joinItems, distinct]
  | cons t rest ih =>
    rw [joinItems_cons, ih]
    by_cases ht : lower.any (·.same t) = true
    · rw [if_pos ht, List.filter_cons_of_neg (by simp only [ht]; decide)]
    · rw [if_neg ht, List.filter_cons_of_pos (by simp only [ht]; decide), distinct, distinct,
        List.eraseDupsBy_cons, List.filter_filter, List.append_assoc, List.singleton_append]
      congr 4
      funext u
      simp [Bool.and_comm]

/-- The first occurrences of a list are what it adds to nothing. -/
theorem joinItems_nil (items : List Tree) : joinItems [] items = distinct items := by
  simp [joinItems_eq]

/-- A joined list has the values of the two lists. -/
theorem any_joinItems (lower upper : List Tree) (v : Tree) :
    (joinItems lower upper).any (·.same v) =
      (lower.any (·.same v) || upper.any (·.same v)) := by
  induction upper generalizing lower with
  | nil => simp [joinItems]
  | cons t rest ih =>
    rw [joinItems_cons, ih, List.any_cons]
    split
    · next ht =>
      -- a value that is left out is equal to one that is there
      cases htv : t.same v with
      | false => simp
      | true =>
        obtain ⟨u, hu, hut⟩ := List.any_eq_true.1 ht
        have huv : u.same v = true := (same_congr u t v hut).trans htv
        rw [List.any_eq_true.2 ⟨u, hu, huv⟩, Bool.true_or, Bool.true_or]
    · rw [List.any_append, List.any_cons, List.any_nil, Bool.or_false, Bool.or_assoc]

/-- Joining may be grouped in any way. -/
theorem joinItems_assoc (items lower upper : List Tree) :
    joinItems items (joinItems lower upper) = joinItems (joinItems items lower) upper := by
  induction upper generalizing lower with
  | nil => rfl
  | cons t rest ih =>
    rw [joinItems_cons, ih, joinItems_cons]
    congr 1
    by_cases ht : lower.any (·.same t) = true
    · rw [if_pos ht, if_pos (by rw [any_joinItems, ht, Bool.or_true])]
    · rw [if_neg ht, joinItems_append]
      rfl

/-- A joined list has the first occurrences of the upper list put behind the lower one. -/
theorem distinct_joinItems (lower upper : List Tree) :
    distinct (joinItems lower upper) = distinct (lower ++ upper) := by
  rw [← joinItems_nil, ← joinItems_nil, joinItems_assoc, joinItems_append]

/-! ## Repetitions -/

/-- What is added to a list without repetitions repeats none. -/
theorem NoRepeats.joinItems (h : NoRepeats lower) (upper : List Tree) :
    NoRepeats (joinItems lower upper) := by
  induction upper generalizing lower with
  | nil => exact h
  | cons t rest ih =>
    rw [joinItems_cons]
    split
    · exact ih h
    · next ht =>
      have hnew : ∀ u ∈ lower, u.same t = false := by simpa using ht
      refine ih (List.pairwise_append.2 ⟨h, List.pairwise_singleton _ _, fun u hu v hv => ?_⟩)
      rw [List.mem_singleton.1 hv]
      exact hnew u hu

/-- The first occurrences of a list repeat none. -/
theorem noRepeats_distinct (items : List Tree) : NoRepeats (distinct items) := by
  rw [← joinItems_nil]
  exact NoRepeats.joinItems .nil items

/-- A joined list repeats no value just if the lower one repeats none. -/
theorem noRepeats_joinItems_iff : NoRepeats (joinItems lower upper) ↔ NoRepeats lower := by
  constructor
  · intro h
    rw [joinItems_eq] at h
    exact (List.pairwise_append.1 h).1
  · exact fun h => h.joinItems upper

/-- A list is its first occurrences just if it repeats no value. -/
theorem distinct_eq_self_iff : distinct items = items ↔ NoRepeats items := by
  constructor
  · intro h
    rw [← h]
    exact noRepeats_distinct items
  · intro h
    induction items using List.reverseRecOn with
    | nil => rfl
    | append_singleton items t ih =>
      obtain ⟨hitems, -, hnew⟩ := List.pairwise_append.1 h
      have ht : ¬ items.any (·.same t) = true := by
        simpa using fun u hu => hnew u hu t List.mem_cons_self
      rw [← joinItems_nil, joinItems_append, joinItems_nil, ih hitems, joinItems_cons, if_neg ht]
      rfl

end Tree

end EventSchema
