import EventSchema.Proofs.Layers

/-!
# Bases and layers

Which layers a map is made of that inherits, and when there are none.

* `IsLayerOf` — the layer of a base: the base with everything it inherits, without what identifies
  it;
* `HasLayers` — the layers of a map: those of its bases in their order, and then the map itself
  without the list of its bases;
* `exists_hasLayers`, `inherit_of_hasLayers` — a map with everything it inherits is its layers over
  each other;
* `Tree.BaseOf`, `Tree.fault?` — the bases of a map and the bases of these at any depth, and what is
  wrong with one of them;
* `inherit_fails_iff` — a map cannot inherit just if something is wrong with one of its bases, by
  induction on the base.
-/

namespace EventSchema

variable {t base : Tree} {bases : Tree} {items : List Tree} {fields document layer : Fields}
  {layers : List Fields} {fault : BaseFault}

/-! ## Layers -/

/-- The layer of a base: the base with everything it inherits, without what identifies it. -/
def IsLayerOf (base : Tree) (layer : Fields) : Prop :=
  ∃ merged, base.inherit = .ok (.map merged) ∧ layer = anonymous merged

/-- The layers of a map that inherits: one for each base in turn, and above them the map without
the list of its bases. -/
def HasLayers (document : Fields) (layers : List Fields) : Prop :=
  ∃ bases lower, Keyed.find? extendsKey document = some bases ∧
    List.Forall₂ IsLayerOf bases.listed lower ∧
    layers = lower ++ [Keyed.erase extendsKey document]

/-- A map with everything it inherits is a map. -/
theorem inherit_map (fields : Fields) :
    (Tree.map fields).inherit = (Fields.inherit fields).map .map := by
  rw [Tree.inherit]
  cases Fields.inherit fields <;> rfl

/-- The fields of a map that inherits are those of its layers. -/
theorem inherit_fields (h : Keyed.find? extendsKey document = some bases) :
    Fields.inherit document = (layersOf bases.listed).map fun lower =>
      overlayAll (lower ++ [Keyed.erase extendsKey document]) := by
  simp only [Fields.inherit, baseLayers_eq, h]
  cases layersOf bases.listed <;> rfl

/-- A map inherits from the bases that it lists. -/
theorem inherit_heir (h : Keyed.find? extendsKey document = some bases) :
    (Tree.map document).inherit = (layersOf bases.listed).map fun lower =>
      .map (overlayAll (lower ++ [Keyed.erase extendsKey document])) := by
  rw [inherit_map, inherit_fields h]
  cases layersOf bases.listed <;> rfl

/-- A map that lists no bases stays as it is. -/
theorem inherit_of_no_bases (h : Keyed.find? extendsKey document = none) :
    (Tree.map document).inherit = .ok (.map document) := by
  rw [Tree.inherit, Fields.inherit, baseLayers_eq, h]
  rfl

/-- The layer of a map that is no marker. -/
theorem layerOf_map (h : Fields.target? fields = none) :
    layerOf (.map fields) = (Fields.inherit fields).map anonymous := by
  rw [layerOf, h, Fields.inherit]
  cases baseLayers fields <;> rfl

/-- What a base gives is its layer, and it gives one only if it is no marker. -/
theorem layerOf_eq_ok_iff : layerOf t = .ok layer ↔ t.target? = none ∧ IsLayerOf t layer := by
  cases t with
  | map fields =>
    cases htarget : Fields.target? fields with
    | some target => simp [layerOf, htarget, Tree.target?]
    | none =>
      rw [layerOf_map htarget, IsLayerOf, Tree.inherit]
      cases Fields.inherit fields with
      | error fault => simp [Except.map, bind, Except.bind]
      | ok merged => simp [Except.map, bind, Except.bind, pure, Except.pure, Tree.target?, htarget,
          eq_comm]
  | _ => simp [layerOf, IsLayerOf, Tree.inherit]

/-- A base has one layer. -/
theorem rightUnique_isLayerOf : Relator.RightUnique IsLayerOf := by
  rintro base layer layer' ⟨merged, hmerged, rfl⟩ ⟨merged', hmerged', rfl⟩
  rw [hmerged] at hmerged'
  rw [Tree.map.inj (Except.ok.inj hmerged')]

/-- A map that could inherit has layers, and is made of them. -/
theorem exists_hasLayers (hheir : Keyed.has extendsKey document = true)
    (h : (Tree.map document).inherit = .ok t) :
    ∃ layers, HasLayers document layers ∧ t = .map (overlayAll layers) := by
  obtain ⟨bases, hbases⟩ := Option.isSome_iff_exists.1 hheir
  rw [inherit_heir hbases] at h
  cases hlower : layersOf bases.listed with
  | error fault => simp [hlower, Except.map] at h
  | ok lower =>
    rw [hlower] at h
    have hall := (layersOf_eq_ok_iff.1 hlower).imp fun _ _ hlayer => (layerOf_eq_ok_iff.1 hlayer).2
    exact ⟨_, ⟨bases, lower, hbases, hall, rfl⟩, (Except.ok.inj h).symm⟩

/-- A map with everything it inherits is its layers over each other. -/
theorem inherit_of_hasLayers (hlayers : HasLayers document layers)
    (h : (Tree.map document).inherit = .ok t) : t = .map (overlayAll layers) := by
  obtain ⟨bases, lower, hbases, hlower, rfl⟩ := hlayers
  have hheir : Keyed.has extendsKey document = true := by
    rw [Keyed.has, hbases, Option.isSome_some]
  obtain ⟨layers, ⟨bases', lower', hbases', hlower', rfl⟩, rfl⟩ := exists_hasLayers hheir h
  obtain rfl : bases = bases' := Option.some.inj (hbases.symm.trans hbases')
  rw [List.right_unique_forall₂' rightUnique_isLayerOf hlower hlower']

/-! ## Faults -/

/-- A tree is a base of a map: the map lists it, or it is a base of one that the map lists. -/
inductive Tree.BaseOf (base : Tree) : Tree → Prop
  | listed {fields : Fields} {bases : Tree} (hbases : Keyed.find? extendsKey fields = some bases)
    (h : base ∈ bases.listed) : BaseOf base (.map fields)
  | inherited {fields : Fields} {bases between : Tree}
    (hbases : Keyed.find? extendsKey fields = some bases) (hbetween : between ∈ bases.listed)
    (h : BaseOf base between) : BaseOf base (.map fields)

/-- The bases of a map are those that it lists and the bases of these. -/
theorem Tree.baseOf_map_iff : base.BaseOf (.map fields) ↔
    ∃ bases, Keyed.find? extendsKey fields = some bases ∧
      ∃ listed ∈ bases.listed, base = listed ∨ base.BaseOf listed := by
  constructor
  · intro h
    cases h with
    | listed hbases h => exact ⟨_, hbases, base, h, .inl rfl⟩
    | inherited hbases hbetween h => exact ⟨_, hbases, _, hbetween, .inr h⟩
  · rintro ⟨bases, hbases, listed, hlisted, rfl | h⟩
    · exact .listed hbases hlisted
    · exact .inherited hbases hlisted h

/-- What is wrong with a tree as a base: that it is a marker, or no map. -/
def Tree.fault? : Tree → Option BaseFault
  | .map fields => (Fields.target? fields).map .marker
  | found => some (.notMap found)

/-- Some bases have no layers just if one of them has none. -/
theorem layersOf_fails_iff :
    (∃ fault, layersOf items = .error fault) ↔
      ∃ base ∈ items, ∃ fault, layerOf base = .error fault := by
  induction items with
  | nil => simp [layersOf]
  | cons t ts ih =>
    cases hfirst : layerOf t with
    | error fault => simp [layersOf, hfirst, bind, Except.bind]
    | ok first =>
      rw [List.exists_mem_cons_iff, ← ih]
      cases hrest : layersOf ts <;>
        simp [layersOf, hfirst, hrest, bind, Except.bind, pure, Except.pure]

/-- A map cannot inherit just if one of the bases that it lists has no layer. -/
theorem inherit_fails_iff_listed :
    (∃ fault, (Tree.map fields).inherit = .error fault) ↔
      ∃ bases, Keyed.find? extendsKey fields = some bases ∧
        ∃ base ∈ bases.listed, ∃ fault, layerOf base = .error fault := by
  cases hbases : Keyed.find? extendsKey fields with
  | none => simp [inherit_of_no_bases hbases]
  | some bases =>
    simp only [Option.some.injEq, exists_eq_left', ← layersOf_fails_iff, inherit_heir hbases]
    cases layersOf bases.listed <;> simp [Except.map]

/-- A map that is no marker has no layer just if it cannot inherit. -/
theorem layerOf_fails_iff_inherit (h : Fields.target? fields = none) :
    (∃ fault, layerOf (.map fields) = .error fault) ↔
      ∃ fault, (Tree.map fields).inherit = .error fault := by
  rw [layerOf_map h, Tree.inherit]
  cases Fields.inherit fields <;> simp [Except.map, bind, Except.bind, pure, Except.pure]

/-- A tree is no base to inherit from: it is a marker or no map, or one of its own bases is. -/
def Tree.HasFault (t : Tree) : Prop :=
  ∃ base : Tree, (base = t ∨ base.BaseOf t) ∧ base.fault?.isSome = true

/-- A map cannot inherit just if something is wrong with one of its bases, if this is so of the
layers of the bases that it lists. -/
theorem inherit_fails_iff_of_listed
    (h : ∀ bases, Keyed.find? extendsKey fields = some bases → ∀ listed ∈ bases.listed,
      ((∃ fault, layerOf listed = .error fault) ↔ listed.HasFault)) :
    (∃ fault, (Tree.map fields).inherit = .error fault) ↔
      ∃ base : Tree, base.BaseOf (.map fields) ∧ base.fault?.isSome = true := by
  rw [inherit_fails_iff_listed]
  constructor
  · rintro ⟨bases, hbases, listed, hlisted, hfails⟩
    obtain ⟨base, hbase, hfault⟩ := (h bases hbases listed hlisted).1 hfails
    exact ⟨base, Tree.baseOf_map_iff.2 ⟨bases, hbases, listed, hlisted, hbase⟩, hfault⟩
  · rintro ⟨base, hbase, hfault⟩
    obtain ⟨bases, hbases, listed, hlisted, hbase⟩ := Tree.baseOf_map_iff.1 hbase
    exact ⟨bases, hbases, listed, hlisted, (h bases hbases listed hlisted).2 ⟨base, hbase, hfault⟩⟩

/-- A base has no layer just if something is wrong with it or with one of its bases. -/
theorem layerOf_fails_iff : (∃ fault, layerOf t = .error fault) ↔ t.HasFault := by
  induction hsize : sizeOf t using Nat.strongRecOn generalizing t with
  | ind size ih =>
    cases t with
    | map fields =>
      cases htarget : Fields.target? fields with
      | some target =>
        have hfault : (Tree.map fields).fault?.isSome = true := by simp [Tree.fault?, htarget]
        have hlayer : layerOf (.map fields) = .error (.marker target) := by rw [layerOf, htarget]
        exact ⟨fun _ => ⟨_, .inl rfl, hfault⟩, fun _ => ⟨_, hlayer⟩⟩
      | none =>
        have hself : (Tree.map fields).fault? = none := by simp [Tree.fault?, htarget]
        rw [layerOf_fails_iff_inherit htarget, inherit_fails_iff_of_listed]
        · constructor
          · rintro ⟨base, hbase, hfault⟩
            exact ⟨base, .inr hbase, hfault⟩
          · rintro ⟨base, rfl | hbase, hfault⟩
            · rw [hself] at hfault
              cases hfault
            · exact ⟨base, hbase, hfault⟩
        · -- what the map lists is smaller
          intro bases hbases listed hlisted
          exact ih _ (hsize ▸ sizeOf_lt_of_listed hbases hlisted) rfl
    | _ => exact ⟨fun _ => ⟨_, .inl rfl, rfl⟩, fun _ => ⟨_, rfl⟩⟩

/-- A map cannot inherit just if something is wrong with one of its bases. -/
theorem inherit_fails_iff :
    (∃ fault, (Tree.map document).inherit = .error fault) ↔
      ∃ base : Tree, base.BaseOf (.map document) ∧ base.fault?.isSome = true :=
  inherit_fails_iff_of_listed fun _ _ _ _ => layerOf_fails_iff

end EventSchema
