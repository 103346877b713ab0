import EventSchema.Proofs.Entries
import EventSchema.Proofs.Markers
import Mathlib.Data.List.Forall2

/-!
# Entries of joined layers

Where the entries of a map come from that inherits from its bases.

* `KeptByCombine`, `forall_overlayAll` — what holds of the entries of all layers, and is kept when
  two values under one key are combined, holds of the entries of the layers over each other;
* `IsSettled` — an entry without markers whose key is not the key of inheritance;
* `baseLayers_eq`, `layersOf_eq_ok_iff`, `layerOf_eq_ok`, `inherit_eq_ok` — the layers below a map,
  base by base;
* `Descends`, `forall_layerOf`, `forall_inherit` — a property that goes down from a map to its bases
  decides what the entries of the map are like that inherits from them, by induction on the base;
* `settled_inherit` — a document without markers that inherits is left without markers, and without
  the key of inheritance.
-/

namespace EventSchema

variable {P : String × Tree → Prop} {fields lower upper layer : Fields} {t u : Tree}

/-- The items of two joined lists are those of the two. -/
theorem Tree.mem_or_mem_of_mem_joinItems {lower upper : List Tree}
    (ht : t ∈ Tree.joinItems lower upper) : t ∈ lower ∨ t ∈ upper := by
  rw [Tree.joinItems] at ht
  induction upper generalizing lower with
  | nil => exact .inl ht
  | cons v rest ih =>
    rw [List.foldl_cons] at ht
    rcases ih ht with ht | ht
    · split at ht
      · exact .inl ht
      · rcases List.mem_append.1 ht with ht | ht
        · exact .inl ht
        · exact .inr (List.mem_singleton.1 ht ▸ List.mem_cons_self)
    · exact .inr (List.mem_cons_of_mem _ ht)

/-! ## Layers over each other -/

/-- What is kept when two values under one key are combined. -/
def KeptByCombine (P : String × Tree → Prop) : Prop :=
  ∀ key lower upper, P (key, lower) → P (key, upper) → P (key, combine key (some lower) upper)

/-- A value over nothing stays as it is. -/
theorem combine_none (key : String) (upper : Tree) : combine key none upper = upper := by
  cases upper <;> rfl

/-- What holds of the entries of two layers holds of the entries of one over the other. -/
theorem forall_overlay (hP : KeptByCombine P) (hlower : ∀ e ∈ lower, P e)
    (hupper : ∀ e ∈ upper, P e) : ∀ e ∈ overlay lower upper, P e := by
  rw [overlay]
  induction upper generalizing lower with
  | nil => exact hlower
  | cons d rest ih =>
    refine ih (fun e he => ?_) fun e he => hupper e (List.mem_cons_of_mem _ he)
    rcases Keyed.eq_or_mem_of_mem_insert he with rfl | he
    · have hd : P d := hupper d List.mem_cons_self
      cases hfound : Keyed.find? d.1 lower with
      | none =>
        rw [combine_none]
        exact hd
      | some value => exact hP _ _ _ (hlower _ (Keyed.mem_of_find? hfound)) hd
    · exact hlower e he

/-- What holds of the entries of all layers holds of the entries of the layers over each other. -/
theorem forall_overlayAll (hP : KeptByCombine P) {layers : List Fields}
    (h : ∀ layer ∈ layers, ∀ e ∈ layer, P e) : ∀ e ∈ overlayAll layers, P e := by
  have key : ∀ (layers : List Fields) (lower : Fields), (∀ layer ∈ layers, ∀ e ∈ layer, P e) →
      (∀ e ∈ lower, P e) → ∀ e ∈ layers.foldl overlay lower, P e := by
    intro layers
    induction layers with
    | nil => exact fun _ _ hlower => hlower
    | cons layer rest ih =>
      intro lower h hlower
      refine ih _ (fun l hl => h l (List.mem_cons_of_mem _ hl)) ?_
      exact forall_overlay hP hlower (h layer List.mem_cons_self)
  exact key layers [] h nofun

/-! ## Settled entries -/

/-- An entry without markers, which does not make its map a marker or an heir. -/
structure IsSettled (e : String × Tree) : Prop where
  key : e.1 ≠ extendsKey
  marker : targetOf? e.1 e.2 = none
  targets : e.2.targets = []

/-- The entries of a map without markers are settled, apart from the key of inheritance. -/
theorem IsSettled.of_targets (h : Tree.fieldTargets fields = []) {e : String × Tree}
    (he : e ∈ fields) (hkey : e.1 ≠ extendsKey) : IsSettled e := by
  obtain ⟨hmarker, htargets⟩ := Tree.fieldTargets_eq_nil_iff.1 h e he
  exact ⟨hkey, hmarker, htargets⟩

/-- Values without markers are combined to one without markers. -/
theorem keptByCombine_isSettled : KeptByCombine IsSettled := by
  intro key lower upper hlower hupper
  unfold combine
  split
  · next lower upper hl =>
    obtain rfl := Option.some.inj hl
    split
    · refine ⟨hupper.key, targetOf?_eq_none_of_string? rfl, Tree.fieldTargets_eq_nil_iff.2 ?_⟩
      intro e he
      rcases Keyed.mem_or_mem_of_mem_insertAll he with he | he
      · exact Tree.fieldTargets_eq_nil_iff.1 hlower.targets e he
      · exact Tree.fieldTargets_eq_nil_iff.1 hupper.targets e he
    · exact hupper
  · next lower upper hl =>
    obtain rfl := Option.some.inj hl
    split
    · refine ⟨hupper.key, targetOf?_eq_none_of_string? rfl, Tree.itemTargets_eq_nil_iff.2 ?_⟩
      intro t ht
      rcases Tree.mem_or_mem_of_mem_joinItems ht with ht | ht
      · exact Tree.itemTargets_eq_nil_iff.1 hlower.targets t ht
      · exact Tree.itemTargets_eq_nil_iff.1 hupper.targets t ht
    · exact hupper
  · exact hupper

/-! ## The layers below a map -/

/-- The layers below a map are those of the bases that it lists, if it inherits. -/
theorem baseLayers_eq (fields : Fields) :
    baseLayers fields =
      match Keyed.find? extendsKey fields with
      | none => .ok none
      | some bases => (layersOf bases.listed).map some := by
  induction fields with
  | nil => rfl
  | cons d rest ih =>
    obtain ⟨k, t⟩ := d
    by_cases hk : k = extendsKey
    · cases t with
      | seq items =>
        simp only [baseLayers, Keyed.find?, hk, if_true, Tree.listed]
        cases layersOf items <;> rfl
      | _ =>
        simp only [baseLayers, Keyed.find?, hk, if_true, Tree.listed, layersOf]
        cases layerOf _ <;> rfl
    · cases t <;> simp only [baseLayers, Keyed.find?, hk, if_false, ih]

/-- The layers of some bases, base by base. -/
theorem layersOf_eq_ok_iff {bases : List Tree} {layers : List Fields} :
    layersOf bases = .ok layers ↔
      List.Forall₂ (fun base layer => layerOf base = .ok layer) bases layers := by
  induction bases generalizing layers with
  | nil => cases layers <;> simp [layersOf]
  | cons base rest ih =>
    cases hfirst : layerOf base with
    | error fault => simp [layersOf, hfirst, bind, Except.bind, List.forall₂_cons_left_iff]
    | ok first =>
      cases hrest : layersOf rest with
      | error fault => cases layers <;> simp [layersOf, hfirst, hrest, bind, Except.bind, ← ih]
      | ok more =>
        cases layers <;>
          simp [layersOf, hfirst, hrest, bind, Except.bind, pure, Except.pure, ← ih]

/-- Where two lists correspond item by item, each item of the second has its item of the first. -/
theorem exists_of_mem_right {α β : Type} {R : α → β → Prop} {as : List α} {bs : List β} {b : β}
    (h : List.Forall₂ R as bs) (hb : b ∈ bs) : ∃ a ∈ as, R a b := by
  induction h with
  | nil => cases hb
  | cons hfirst _ ih =>
    rcases List.mem_cons.1 hb with rfl | hb
    · exact ⟨_, List.mem_cons_self, hfirst⟩
    · obtain ⟨a, ha, hrest⟩ := ih hb
      exact ⟨a, List.mem_cons_of_mem _ ha, hrest⟩

/-- There are no layers below a map only if it does not inherit. -/
theorem ne_extendsKey_of_baseLayers (h : baseLayers fields = .ok none) :
    ∀ e ∈ fields, e.1 ≠ extendsKey := by
  rw [baseLayers_eq] at h
  split at h
  · next hfound => exact Keyed.find?_eq_none_iff.1 hfound
  · next bases _ => cases hlayers : layersOf bases.listed <;> simp [hlayers, Except.map] at h

/-- Each layer below a map is the layer of a base that the map lists. -/
theorem exists_base_of_baseLayers {layers : List Fields} (h : baseLayers fields = .ok (some layers))
    (hlayer : layer ∈ layers) :
    ∃ bases, Keyed.find? extendsKey fields = some bases ∧
      ∃ base ∈ bases.listed, layerOf base = .ok layer := by
  rw [baseLayers_eq] at h
  split at h
  · cases h
  · next bases hfound =>
    cases hlayers : layersOf bases.listed with
    | error fault => simp [hlayers, Except.map] at h
    | ok found =>
      simp only [hlayers, Except.map, Except.ok.injEq, Option.some.injEq] at h
      subst h
      obtain ⟨base, hbase, hlayer⟩ := exists_of_mem_right (layersOf_eq_ok_iff.1 hlayers) hlayer
      exact ⟨bases, hfound, base, hbase, hlayer⟩

/-- A base has a layer only if it is a map: its layers joined, without what identifies it. -/
theorem layerOf_eq_ok (h : layerOf t = .ok layer) :
    ∃ fields layers?, t = .map fields ∧ baseLayers fields = .ok layers? ∧
      layer = anonymous (joinLayers fields layers?) := by
  cases t with
  | map fields =>
    cases htarget : Fields.target? fields with
    | some target => simp [layerOf, htarget] at h
    | none =>
      cases hlayers : baseLayers fields with
      | error fault => simp [layerOf, htarget, hlayers, bind, Except.bind] at h
      | ok layers? =>
        simp only [layerOf, htarget, hlayers, bind, Except.bind, pure, Except.pure,
          Except.ok.injEq] at h
        exact ⟨fields, layers?, rfl, hlayers, h.symm⟩
  | _ => cases h

/-- A map inherits only if its bases have layers: it becomes the map over these. -/
theorem inherit_eq_ok (h : (Tree.map fields).inherit = .ok u) :
    ∃ layers?, baseLayers fields = .ok layers? ∧ u = .map (joinLayers fields layers?) := by
  cases hlayers : baseLayers fields with
  | error fault => simp [Tree.inherit, Fields.inherit, hlayers, bind, Except.bind] at h
  | ok layers? =>
    simp only [Tree.inherit, Fields.inherit, hlayers, bind, Except.bind, pure, Except.pure,
      Except.ok.injEq] at h
    exact ⟨layers?, rfl, h.symm⟩

/-- A property of trees that the bases of a map have if the map has it, and that makes the other
entries of the map have a property which is kept when values are combined. -/
structure Descends (Q : Tree → Prop) (P : String × Tree → Prop) : Prop where
  combined : KeptByCombine P
  own : ∀ fields, Q (.map fields) → ∀ e ∈ fields, e.1 ≠ extendsKey → P e
  bases : ∀ fields bases, Q (.map fields) → Keyed.find? extendsKey fields = some bases →
    ∀ base ∈ bases.listed, Q base

section Descends

variable {Q : Tree → Prop} (hQ : Descends Q P)
include hQ

/-- The entries of a map over its layers have the property, if those of the layers of its bases
have it, which are smaller. -/
theorem forall_joinLayers {layers? : Option (List Fields)} (hfields : Q (.map fields))
    (hlayers : baseLayers fields = .ok layers?)
    (hbases : ∀ base layer, sizeOf base < sizeOf (Tree.map fields) → Q base →
      layerOf base = .ok layer → ∀ e ∈ layer, P e) : ∀ e ∈ joinLayers fields layers?, P e := by
  cases layers? with
  | none => exact fun e he => hQ.own fields hfields e he (ne_extendsKey_of_baseLayers hlayers e he)
  | some layers =>
    refine forall_overlayAll hQ.combined fun layer hlayer e he => ?_
    rcases List.mem_append.1 hlayer with hlayer | hlayer
    · obtain ⟨bases, hfound, base, hbase, hlayer⟩ := exists_base_of_baseLayers hlayers hlayer
      exact hbases base layer (sizeOf_lt_of_listed hfound hbase)
        (hQ.bases fields bases hfields hfound base hbase) hlayer e he
    · rw [List.mem_singleton.1 hlayer, Keyed.erase, List.mem_filter] at he
      exact hQ.own fields hfields e he.1 (by simpa using he.2)

/-- The entries of the layer of a base have the property. -/
theorem forall_layerOf (ht : Q t) (h : layerOf t = .ok layer) : ∀ e ∈ layer, P e := by
  induction hsize : sizeOf t using Nat.strongRecOn generalizing t layer with
  | ind size ih =>
    obtain ⟨fields, layers?, rfl, hlayers, rfl⟩ := layerOf_eq_ok h
    intro e he
    -- what identifies the base is left out of the joined layers, and nothing is added
    refine forall_joinLayers hQ ht hlayers (fun base layer hlt hbase hlayer => ?_) e
      (List.mem_filter.1 he).1
    exact ih (sizeOf base) (hsize ▸ hlt) hbase hlayer rfl

/-- The entries of a document with everything that it inherits have the property. -/
theorem forall_inherit (hfields : Q (.map fields)) (h : (Tree.map fields).inherit = .ok u) :
    ∃ merged, u = .map merged ∧ ∀ e ∈ merged, P e := by
  obtain ⟨layers?, hlayers, rfl⟩ := inherit_eq_ok h
  exact ⟨_, rfl, forall_joinLayers hQ hfields hlayers fun _ _ _ => forall_layerOf hQ⟩

end Descends

/-! ## Documents without markers -/

/-- What a value without markers lists has none. -/
theorem targets_of_listed (hu : u.targets = []) (ht : t ∈ u.listed) : t.targets = [] := by
  rcases Tree.eq_or_mem_of_mem_listed ht with rfl | ⟨items, rfl, hitem⟩
  · exact hu
  · exact Tree.itemTargets_eq_nil_iff.1 hu t hitem

/-- Where a map has no markers its bases have none, and its other entries are settled. -/
theorem descends_isSettled : Descends (fun t => t.targets = []) IsSettled where
  combined := keptByCombine_isSettled
  own _ h _ he hkey := .of_targets h he hkey
  bases _ _ h hfound _ hbase :=
    targets_of_listed (Tree.fieldTargets_eq_nil_iff.1 h _ (Keyed.mem_of_find? hfound)).2 hbase

/-- A document without markers that inherits is left without markers and without bases. -/
theorem settled_inherit (ht : t.targets = []) (h : t.inherit = .ok u) :
    u.targets = [] ∧ u.field? extendsKey = none := by
  cases t with
  | map fields =>
    obtain ⟨merged, rfl, hall⟩ := forall_inherit descends_isSettled ht h
    refine ⟨Tree.fieldTargets_eq_nil_iff.2 fun e he => ?_, ?_⟩
    · exact ⟨(hall e he).marker, (hall e he).targets⟩
    · exact Keyed.find?_eq_none_iff.2 fun e he => (hall e he).key
  | _ =>
    obtain rfl := Except.ok.inj h
    exact ⟨ht, rfl⟩

end EventSchema
