import EventSchema.Proofs.Layers

/-!
# Trees in order

In a document that was read the keys of every map are strictly increasing, so each occurs once
(`Markup.isOrdered_parse` says so of every text).

* `Tree.isOrdered` — whether a tree is like that;
* `sorted_overlayAll` — layers over each other are in order, whatever order the layers are in;
* `isOrdered_inherit` — a document in order stays so when it inherits.
-/

namespace EventSchema

instance (fields : Fields) : Decidable (Keyed.Sorted fields) :=
  inferInstanceAs (Decidable ((Keyed.keys fields).Pairwise (· < ·)))

namespace Tree

mutual

/-- Whether the keys of every map in a tree are in order. -/
def isOrdered : Tree → Bool
  | seq items => itemsOrdered items
  | map fields => decide (Keyed.Sorted fields) && fieldsOrdered fields
  | _ => true
termination_by structural t => t

/-- The same for the items of a sequence. -/
def itemsOrdered : List Tree → Bool
  | [] => true
  | t :: ts => isOrdered t && itemsOrdered ts
termination_by structural ts => ts

/-- The same for the values of a map. -/
def fieldsOrdered : List (String × Tree) → Bool
  | [] => true
  | (_, t) :: fields => isOrdered t && fieldsOrdered fields
termination_by structural fs => fs

end

variable {t u : Tree} {items : List Tree} {fields : Fields}

/-- A sequence is in order if its items are. -/
theorem isOrdered_seq : (seq items).isOrdered = true ↔ ∀ t ∈ items, t.isOrdered = true := by
  rw [isOrdered]
  induction items with
  | nil => simp [itemsOrdered]
  | cons t ts ih => simp [itemsOrdered, ih]

/-- A map is in order if its keys and its values are. -/
theorem isOrdered_map :
    (map fields).isOrdered = true ↔ Keyed.Sorted fields ∧ ∀ e ∈ fields, e.2.isOrdered = true := by
  have hvalues : fieldsOrdered fields = true ↔ ∀ e ∈ fields, e.2.isOrdered = true := by
    induction fields with
    | nil => simp [fieldsOrdered]
    | cons e rest ih => simp [fieldsOrdered, ih]
  rw [isOrdered, Bool.and_eq_true, decide_eq_true_eq, hvalues]

/-- What is listed by a value in order is in order. -/
theorem isOrdered_listed (hu : u.isOrdered = true) (ht : t ∈ u.listed) : t.isOrdered = true := by
  rcases eq_or_mem_of_mem_listed ht with rfl | ⟨items, rfl, hitem⟩
  · exact hu
  · exact isOrdered_seq.1 hu t hitem

/-- Fields chosen from a map in order make one. -/
theorem isOrdered_filter (h : (map fields).isOrdered = true) (p : String × Tree → Bool) :
    (map (fields.filter p)).isOrdered = true := by
  obtain ⟨hsorted, hvalues⟩ := isOrdered_map.1 h
  exact isOrdered_map.2 ⟨hsorted.filter p, fun e he => hvalues e (List.mem_filter.1 he).1⟩

/-- A value in order is put into a map in order. -/
theorem isOrdered_insert (h : (map fields).isOrdered = true) (ht : t.isOrdered = true)
    (key : String) : (map (Keyed.insert key t fields)).isOrdered = true := by
  obtain ⟨hsorted, hvalues⟩ := isOrdered_map.1 h
  refine isOrdered_map.2 ⟨hsorted.insert key t, fun e he => ?_⟩
  rcases Keyed.eq_or_mem_of_mem_insert he with rfl | he
  · exact ht
  · exact hvalues e he

/-- What is found in a map in order is in order. -/
theorem isOrdered_find? {key : String} (h : (map fields).isOrdered = true)
    (ht : Keyed.find? key fields = some t) : t.isOrdered = true :=
  (isOrdered_map.1 h).2 _ (Keyed.mem_of_find? ht)

end Tree

variable {t u : Tree} {fields lower : Fields}

/-! ## Layers -/

/-- A layer over one in order is in order. -/
theorem Keyed.Sorted.overlay (h : Keyed.Sorted lower) (upper : Fields) :
    Keyed.Sorted (overlay lower upper) := by
  rw [EventSchema.overlay]
  induction upper generalizing lower with
  | nil => exact h
  | cons e rest ih => exact ih (h.insert _ _)

/-- Layers over each other are in order. -/
theorem sorted_overlayAll (layers : List Fields) : Keyed.Sorted (overlayAll layers) := by
  have key : ∀ (layers : List Fields) (lower : Fields), Keyed.Sorted lower →
      Keyed.Sorted (layers.foldl overlay lower) := by
    intro layers
    induction layers with
    | nil => exact fun _ hlower => hlower
    | cons layer rest ih => exact fun _ hlower => ih _ (hlower.overlay layer)
  exact key layers [] Keyed.sorted_nil

/-- Values in order are combined to one in order. -/
theorem keptByCombine_isOrdered : KeptByCombine fun e => e.2.isOrdered = true := by
  intro key lower upper hlower hupper
  unfold combine
  split
  · next lower upper hl =>
    obtain rfl := Option.some.inj hl
    split
    · obtain ⟨hsorted, hvalues⟩ := Tree.isOrdered_map.1 hlower
      refine Tree.isOrdered_map.2 ⟨hsorted.insertAll upper, fun e he => ?_⟩
      rcases Keyed.mem_or_mem_of_mem_insertAll he with he | he
      · exact hvalues e he
      · exact (Tree.isOrdered_map.1 hupper).2 e he
    · exact hupper
  · next lower upper hl =>
    obtain rfl := Option.some.inj hl
    split
    · refine Tree.isOrdered_seq.2 fun t ht => ?_
      rcases Tree.mem_or_mem_of_mem_joinItems ht with ht | ht
      · exact Tree.isOrdered_seq.1 hlower t ht
      · exact Tree.isOrdered_seq.1 hupper t ht
    · exact hupper
  · exact hupper

/-- The bases of a map in order are in order, and so are its values. -/
theorem descends_isOrdered :
    Descends (fun t => t.isOrdered = true) fun e => e.2.isOrdered = true where
  combined := keptByCombine_isOrdered
  own _ h e he _ := (Tree.isOrdered_map.1 h).2 e he
  bases _ _ h hfound _ hbase := Tree.isOrdered_listed (Tree.isOrdered_find? h hfound) hbase

/-- A map in order stays so over its layers. -/
theorem Keyed.Sorted.joinLayers (h : Keyed.Sorted fields) (layers? : Option (List Fields)) :
    Keyed.Sorted (joinLayers fields layers?) := by
  cases layers? with
  | none => exact h
  | some layers => exact sorted_overlayAll _

/-- A document in order stays so when it inherits. -/
theorem isOrdered_inherit (ht : t.isOrdered = true) (h : t.inherit = .ok u) :
    u.isOrdered = true := by
  cases t with
  | map fields =>
    obtain ⟨merged, hmerged, hvalues⟩ := forall_inherit descends_isOrdered ht h
    obtain ⟨layers?, -, rfl⟩ := inherit_eq_ok h
    obtain rfl := Tree.map.inj hmerged
    exact Tree.isOrdered_map.2 ⟨(Tree.isOrdered_map.1 ht).1.joinLayers layers?, hvalues⟩
  | _ =>
    obtain rfl := Except.ok.inj h
    exact ht

end EventSchema
