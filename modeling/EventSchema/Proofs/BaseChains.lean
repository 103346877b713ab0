import EventSchema.Proofs.MergedLayers

/-!
# Chains of bases

Several bases of one map are laid over each other from the first to the last. The same comes of a
chain, in which each of them inherits from the one before it, and the map from the last.

* `extending`, `chainOf` — a map with bases, and the last map of a chain;
* `anonymous_overlay` — what identifies layers may be left out before or after they are laid over
  each other;
* `layerOf_chain` — the layer of a chain is made of the layers of its maps, by induction on the
  chain;
* `inherit_list_eq_chain` — so a list of bases and a chain of them are the same to a map.

No condition is put on the values in the maps: both ways group the layers from the first to the
last, so it makes no difference that combining values is not associative.
-/

namespace EventSchema

variable {key : String} {t : Tree} {fields lower layer next first : Fields} {others : List Fields}

/-! ## Layers without what identifies them -/

/-- What is inserted before a map is made anonymous is left out or stays like the rest. -/
theorem anonymous_insert (h : Keyed.Sorted fields) (key : String) (t : Tree) :
    anonymous (Keyed.insert key t fields) =
      if key ∈ identityKeys then anonymous fields else Keyed.insert key t (anonymous fields) := by
  rw [anonymous, h.filter_insert fun k => !identityKeys.contains k]
  by_cases hkey : key ∈ identityKeys <;> simp [hkey, anonymous]

/-- What identifies layers may be left out before one is laid over the other. -/
theorem anonymous_overlay (h : Keyed.Sorted lower) (upper : Fields) :
    anonymous (overlay lower upper) = overlay (anonymous lower) (anonymous upper) := by
  induction upper generalizing lower with
  | nil => rfl
  | cons e rest ih =>
    obtain ⟨k, u⟩ := e
    rw [overlay_cons, ih (h.insert _ _), anonymous_insert h]
    by_cases hk : k ∈ identityKeys
    · have hrest : anonymous ((k, u) :: rest) = anonymous rest := by simp [anonymous, hk]
      rw [if_pos hk, hrest]
    · have hrest : anonymous ((k, u) :: rest) = (k, u) :: anonymous rest := by
        simp [anonymous, hk]
      rw [if_neg hk, hrest, overlay_cons, find?_anonymous, if_neg hk]

/-- A layer in order is what it is over nothing. -/
theorem overlay_nil (h : Keyed.Sorted layer) : overlay [] layer = layer := by
  refine (Keyed.sorted_nil.overlay layer).ext_find? h fun key => ?_
  rw [find?_overlay h, Keyed.find?_nil]
  cases Keyed.find? key layer with
  | none => rfl
  | some t => simp [combine_none]

/-- A layer without what identifies it does not change if that is left out. -/
theorem anonymous_anonymous (fields : Fields) :
    anonymous (anonymous fields) = anonymous fields := by
  rw [anonymous, anonymous, List.filter_filter]
  simp

/-- The layer of a map over that of its only base. -/
def laidOver (below next : Fields) : Fields := anonymous (overlay (overlay [] below) next)

/-- Over nothing, the layer of a map with one base is two layers over each other. -/
theorem overlay_laidOver (h : anonymous layer = layer) (next : Fields) :
    overlay [] (laidOver layer next) = overlay (overlay [] layer) (anonymous next) := by
  have hbelow : Keyed.Sorted (overlay [] layer) := Keyed.sorted_nil.overlay layer
  have hlayer : anonymous (overlay [] layer) = overlay [] layer := by
    rw [anonymous_overlay Keyed.sorted_nil, h]
    rfl
  have hsorted : Keyed.Sorted (laidOver layer next) := (hbelow.overlay next).filter _
  rw [overlay_nil hsorted, laidOver, anonymous_overlay hbelow, hlayer]

/-- A map over its base, which is over its own base, and so on, are all layers over each other. -/
theorem overlay_foldl_laidOver (h : anonymous layer = layer) (others : List Fields) :
    overlay [] (others.foldl laidOver layer) = overlayAll (layer :: others.map anonymous) := by
  induction others generalizing layer with
  | nil => rfl
  | cons next rest ih =>
    have hlayer : anonymous (laidOver layer next) = laidOver layer next := anonymous_anonymous _
    rw [List.foldl_cons, ih hlayer, overlayAll, List.foldl_cons, overlay_laidOver h, overlayAll,
      List.map_cons, List.foldl_cons, List.foldl_cons]

/-! ## Maps with bases -/

/-- A map that inherits from some bases. -/
def extending (bases : Tree) (fields : Fields) : Fields := Keyed.insert extendsKey bases fields

/-- The last of some maps, each of which inherits from the one before it. -/
def chainOf (first : Fields) (others : List Fields) : Fields :=
  others.foldl (fun below next => extending (.map below) next) first

/-- A map that stands alone: it is no marker, and it does not inherit. -/
def StandsAlone (fields : Fields) : Prop :=
  Fields.target? fields = none ∧ Keyed.find? extendsKey fields = none

/-- Bases make no map a marker. -/
theorem target?_extending (bases : Tree) (fields : Fields) :
    Fields.target? (extending bases fields) = Fields.target? fields := by
  have hnone : ∀ t, targetOf? extendsKey t = none := fun t => by
    rw [targetOf?, if_neg (by decide)]
  rw [extending]
  induction fields with
  | nil => simp [Keyed.insert, Fields.target?, hnone]
  | cons e rest ih =>
    obtain ⟨k, u⟩ := e
    rw [Keyed.insert]
    split
    · next hk => simp [Fields.target?, ← hk, hnone]
    · split
      · simp [Fields.target?, hnone]
      · simp only [Fields.target?, List.findSome?_cons] at ih ⊢
        rw [ih]

/-- The layer of a map that stands alone. -/
theorem layerOf_alone (h : StandsAlone fields) :
    layerOf (.map fields) = .ok (anonymous fields) := by
  obtain ⟨htarget, hbases⟩ := h
  rw [layerOf_eq_ok_iff]
  exact ⟨htarget, fields, inherit_of_no_bases hbases, rfl⟩

/-- The layers of maps that stand alone. -/
theorem layersOf_alone (h : ∀ other ∈ others, StandsAlone other) :
    layersOf (others.map .map) = .ok (others.map anonymous) := by
  rw [layersOf_eq_ok_iff, List.forall₂_map_left_iff, List.forall₂_map_right_iff]
  exact List.forall₂_same.2 fun other hother => layerOf_alone (h other hother)

/-- The fields of a map to which bases are given. -/
theorem inherit_extending (bases : Tree) (document : Fields) :
    Fields.inherit (extending bases document) = (layersOf bases.listed).map fun lower =>
      overlay (overlayAll lower) (Keyed.erase extendsKey document) := by
  rw [extending, inherit_fields (Keyed.find?_insert_self _ _ _), Keyed.erase_insert]
  simp only [overlayAll, List.foldl_append, List.foldl_cons, List.foldl_nil]

/-- The layer of a map that inherits from one base. -/
theorem layerOf_extending (h : StandsAlone next) (below : Fields) :
    layerOf (.map (extending (.map below) next)) =
      (layerOf (.map below)).map fun layer => laidOver layer next := by
  obtain ⟨htarget, hbases⟩ := h
  have herase : Keyed.erase extendsKey next = next :=
    List.filter_eq_self.2 fun e he => by simpa using Keyed.find?_eq_none_iff.1 hbases e he
  have hlisted : (Tree.map below).listed = [.map below] := rfl
  rw [layerOf_map (by rw [target?_extending, htarget]), inherit_extending, herase, hlisted,
    layersOf, layersOf]
  cases layerOf (.map below) <;> rfl

/-- The layer of a chain, from that of its first map. -/
theorem layerOf_chain (h : ∀ other ∈ others, StandsAlone other) :
    layerOf (.map (chainOf first others)) =
      (layerOf (.map first)).map fun layer => others.foldl laidOver layer := by
  induction others generalizing first with
  | nil =>
    rw [chainOf, List.foldl_nil]
    cases layerOf (.map first) <;> rfl
  | cons next rest ih =>
    have hrest : ∀ other ∈ rest, StandsAlone other := fun other hother =>
      h other (List.mem_cons_of_mem _ hother)
    rw [chainOf, List.foldl_cons, ← chainOf, ih hrest,
      layerOf_extending (h next List.mem_cons_self)]
    cases layerOf (.map first) <;> rfl

/-- A list of bases is the same to a map as a chain of them, in which each inherits from the one
before it: the map comes to the same fields, or fails with the same fault. Of the first base nothing
is asked; the others are no markers and have no bases of their own. -/
theorem inherit_list_eq_chain (document first : Fields) (others : List Fields)
    (h : ∀ other ∈ others, StandsAlone other) :
    (Tree.map (extending (.seq ((first :: others).map .map)) document)).inherit =
      (Tree.map (extending (.map (chainOf first others)) document)).inherit := by
  have hchain : (Tree.map (chainOf first others)).listed = [.map (chainOf first others)] := rfl
  rw [inherit_map, inherit_map, inherit_extending, inherit_extending, hchain, Tree.listed,
    List.map_cons, layersOf, layersOf_alone h, layersOf, layersOf, layerOf_chain h]
  cases hfirst : layerOf (.map first) with
  | error fault => rfl
  | ok layer =>
    have halone : anonymous layer = layer := by
      obtain ⟨-, merged, -, rfl⟩ := layerOf_eq_ok_iff.1 hfirst
      exact anonymous_anonymous merged
    have hlayers := overlay_foldl_laidOver halone others
    rw [overlayAll] at hlayers
    simp only [Except.map, bind, Except.bind, pure, Except.pure, overlayAll, hlayers,
      List.foldl_cons, List.foldl_nil]

/-! ## Bases that do not fit together -/

/-- The first base, with a base of its own. -/
def recordFields : Fields :=
  [("extends", .map [("required", .seq [.str "id"]), ("title", .str "Record")]),
    ("properties", .map [("id", .map [])])]

/-- The other bases. The properties of one are no map, and the required names of one no list. -/
def mixedBases : List Fields :=
  [[("properties", .seq []), ("required", .str "kind"), ("title", .str "Mixed")],
    [("properties", .map [("at", .map [])]), ("required", .seq [.str "at", .str "at"])]]

/-- What comes of these bases. -/
def mixedMerged : Fields :=
  [("properties", .map [("at", .map [])]), ("required", .seq [.str "at", .str "at", .str "by"]),
    ("title", .str "Entry")]

/-- A list of these bases and a chain of them come to the same fields. -/
theorem inherit_mixedBases :
    (∀ other ∈ mixedBases, StandsAlone other) ∧
      (Tree.map (extending (.map (chainOf recordFields mixedBases))
        [("required", .seq [.str "by"]), ("title", .str "Entry")])).inherit =
        .ok (.map mixedMerged) := by
  have halone : ∀ other ∈ mixedBases, StandsAlone other := by
    intro other hother
    simp only [mixedBases, List.mem_cons, List.not_mem_nil, or_false] at hother
    rcases hother with rfl | rfl <;> exact ⟨rfl, rfl⟩
  refine ⟨halone, ?_⟩
  rw [← inherit_list_eq_chain _ _ _ halone]
  decide +kernel

end EventSchema
