import EventSchema.Proofs.Placement
import EventSchema.Proofs.SelfContained

/-!
# Where inheritance is merged

A document is merged with its bases at its root, and so is each base. Inheritance that is written
at any other place stays there.

* `Tree.NodeOf` — a tree stands in another, other than as a map of declared properties;
* `Place`, `Tree.isFlat` — no map inherits at a place where it is not merged;
* `isFlat_substitute` — flat contents keep a tree flat;
* `descends_isFlat`, `isFlat_inherit` — merging at the root makes a tree flat that inherits at the
  root and at the roots of its bases only;
* `compose_flattened` — a schema is flat if the documents that it is made of inherit there only;
* `compose_orderLibrary_not_flat` — a property that inherits is not merged with its base.
-/

namespace EventSchema

/-- A tree is another one, or stands in it other than as a map of declared properties. -/
inductive Tree.NodeOf (t : Tree) : Tree → Prop
  | self : NodeOf t t
  | item {u : Tree} {items : List Tree} (ht : t ∈ items) (h : (Tree.seq items).Within u) :
    NodeOf t u
  | field {u : Tree} {key : String} {fields : Fields} (ht : (key, t) ∈ fields)
    (hkey : key ≠ propertiesKey) (h : (Tree.map fields).Within u) : NodeOf t u

/-- Where a tree stands. -/
inductive Place where
  /-- it is a document or a base, and is merged with its bases -/
  | root
  /-- it is what lists the bases of a root -/
  | bases
  /-- it is a map of declared properties, in which every key is the name of one -/
  | declared
  /-- it stands anywhere else -/
  | inner
  deriving DecidableEq

namespace Place

/-- The place of an item. -/
def item : Place → Place
  | bases => root
  | _ => inner

/-- The place of what stands under a key. -/
def field (place : Place) (key : String) : Place :=
  if key = propertiesKey then declared
  else if key = extendsKey ∧ (place = root ∨ place = bases) then bases
  else inner

/-- Below a map of declared properties there are such maps and inner places only. -/
theorem field_declared (key : String) :
    declared.field key = if key = propertiesKey then declared else inner := by
  simp [field]

end Place

namespace Tree

mutual

/-- Whether a tree that stands at some place inherits only where it is merged. -/
def isFlat (place : Place) : Tree → Bool
  | seq items => itemsFlat place.item items
  | map fields => (place != .inner || !Keyed.has extendsKey fields) && fieldsFlat place fields
  | _ => true
termination_by structural t => t

/-- The same for the items of a sequence, at the place of each. -/
def itemsFlat (place : Place) : List Tree → Bool
  | [] => true
  | t :: ts => isFlat place t && itemsFlat place ts
termination_by structural ts => ts

/-- The same for the fields of a map at some place. -/
def fieldsFlat (place : Place) : List (String × Tree) → Bool
  | [] => true
  | (k, t) :: fields => isFlat (place.field k) t && fieldsFlat place fields
termination_by structural fs => fs

end

variable {t u : Tree} {items : List Tree} {fields : Fields} {place : Place}

/-- A sequence is flat if its items are. -/
theorem itemsFlat_iff : itemsFlat place items = true ↔ ∀ t ∈ items, t.isFlat place = true := by
  induction items with
  | nil => simp [itemsFlat]
  | cons t ts ih => simp [itemsFlat, ih]

/-- The fields of a map are flat if each one is. -/
theorem fieldsFlat_iff :
    fieldsFlat place fields = true ↔ ∀ e ∈ fields, e.2.isFlat (place.field e.1) = true := by
  induction fields with
  | nil => simp [fieldsFlat]
  | cons e rest ih => simp [fieldsFlat, ih]

/-- A map is flat if its fields are, and if it does not inherit at an inner place. -/
theorem isFlat_map : (map fields).isFlat place = true ↔
    (place = .inner → ∀ e ∈ fields, e.1 ≠ extendsKey) ∧
      ∀ e ∈ fields, e.2.isFlat (place.field e.1) = true := by
  rw [isFlat, Bool.and_eq_true, fieldsFlat_iff, ← Keyed.find?_eq_none_iff, Keyed.has]
  cases place <;> simp

/-- What does not inherit at an inner place is flat at every place. -/
theorem isFlat_of_inner (h : t.isFlat .inner = true) (place : Place) : t.isFlat place = true := by
  -- in a map without bases it makes no difference at which place the map stands
  have hmap : ∀ (fields : Fields) (place : Place), (map fields).isFlat .inner = true →
      (map fields).isFlat place = true := by
    intro fields place hfields
    obtain ⟨hkeys, hflat⟩ := isFlat_map.1 hfields
    refine isFlat_map.2 ⟨fun _ => hkeys rfl, fun e he => ?_⟩
    have hplace : place.field e.1 = Place.field .inner e.1 := by
      simp [Place.field, hkeys rfl e he]
    rw [hplace]
    exact hflat e he
  cases t with
  | map fields => exact hmap fields place h
  | seq items =>
    refine itemsFlat_iff.2 fun t ht => ?_
    have hitem := itemsFlat_iff.1 h t ht
    cases place with
    | bases =>
      cases t with
      | map fields => exact hmap fields .root hitem
      | _ => exact hitem
    | _ => exact hitem
  | _ => rfl

/-- What stands in a flat tree is flat, at least as a map of declared properties. -/
theorem isFlat_of_within (h : t.Within u) (hu : u.isFlat .declared = true) :
    t.isFlat .declared = true := by
  induction h with
  | self => exact hu
  | item hmem _ ih => exact ih (isFlat_of_inner (itemsFlat_iff.1 hu _ hmem) .declared)
  | @field e _ he _ ih =>
    have hflat := (isFlat_map.1 hu).2 e he
    rw [Place.field_declared] at hflat
    split at hflat
    · exact ih hflat
    · exact ih (isFlat_of_inner hflat .declared)

/-- A flat tree does not inherit itself. -/
theorem field?_eq_none_of_isFlat (h : t.isFlat .inner = true) : t.field? extendsKey = none := by
  cases t with
  | map fields => exact Keyed.find?_eq_none_iff.2 ((isFlat_map.1 h).1 rfl)
  | _ => rfl

/-- Nothing in a flat tree inherits. -/
theorem NodeOf.field?_eq_none (h : t.NodeOf u) (hu : u.isFlat .inner = true) :
    t.field? extendsKey = none := by
  have hdeclared := isFlat_of_inner hu .declared
  cases h with
  | self => exact field?_eq_none_of_isFlat hu
  | item ht h =>
    exact field?_eq_none_of_isFlat (itemsFlat_iff.1 (isFlat_of_within h hdeclared) _ ht)
  | field ht hkey h =>
    have hflat := (isFlat_map.1 (isFlat_of_within h hdeclared)).2 _ ht
    rw [Place.field_declared, if_neg hkey] at hflat
    exact field?_eq_none_of_isFlat hflat

/-! ## Substitution -/

section Substitution

variable {content? : String → Option Tree}

/-- Substitution keeps the keys of a map. -/
theorem has_substituteFields (content? : String → Option Tree) (key : String) (fields : Fields) :
    Keyed.has key (substituteFields content? fields) = Keyed.has key fields := by
  induction fields with
  | nil => rfl
  | cons e rest ih =>
    obtain ⟨k, t⟩ := e
    simp only [Keyed.has, substituteFields, Keyed.find?] at ih ⊢
    split
    · rfl
    · exact ih

/-- Where every target has a flat content, a tree stays flat. -/
theorem isFlat_substitute (t : Tree) {place : Place}
    (hcontents : ∀ r ∈ t.targets, ∃ u, content? r = some u ∧ u.isFlat .inner = true)
    (h : t.isFlat place = true) : (t.substitute content?).isFlat place = true := by
  induction t using Tree.byParts generalizing place with
  | seq items ih =>
    rw [substitute, isFlat, substituteItems_eq, itemsFlat_iff, List.forall_mem_map]
    exact fun t ht => ih t ht (fun r hr => hcontents r (mem_itemTargets.2 ⟨t, ht, hr⟩))
      (itemsFlat_iff.1 h t ht)
  | map fields ih =>
    cases ht : Fields.target? fields with
    | some target =>
      obtain ⟨u, hu, hflat⟩ := hcontents target (mem_fieldTargets_of_target? ht)
      simp only [substitute, ht, Option.bind_some, hu]
      exact isFlat_of_inner hflat place
    | none =>
      simp only [isFlat, Bool.and_eq_true, fieldsFlat_iff] at h
      simp only [substitute, ht, Option.bind_none, isFlat, has_substituteFields, Bool.and_eq_true,
        fieldsFlat_iff]
      refine ⟨h.1, ?_⟩
      rw [substituteFields_eq, List.forall_mem_map]
      exact fun e he => ih e he
        (fun r hr => hcontents r (mem_fieldTargets.2 ⟨e, he, .inr hr⟩)) (h.2 e he)
  | _ => exact h

end Substitution

/-! ## Merging -/

/-- What a flat list of bases lists is flat as a root. -/
theorem isFlat_listed (hu : u.isFlat .bases = true) (ht : t ∈ u.listed) :
    t.isFlat .root = true := by
  cases u with
  | seq items => exact itemsFlat_iff.1 hu t ht
  | map fields =>
    obtain rfl := List.mem_singleton.1 ht
    refine isFlat_map.2 ⟨nofun, fun e he => ?_⟩
    have hplace : Place.root.field e.1 = Place.bases.field e.1 := by simp [Place.field]
    rw [hplace]
    exact (isFlat_map.1 hu).2 e he
  | _ =>
    obtain rfl := List.mem_singleton.1 ht
    rfl

end Tree

open Library

/-- A field of a map that does not inherit, flat at its place. -/
def IsFlatField (e : String × Tree) : Prop :=
  e.1 ≠ extendsKey ∧ e.2.isFlat (Place.field .inner e.1) = true

/-- Flat values are combined to a flat one. -/
theorem keptByCombine_isFlatField : KeptByCombine IsFlatField := by
  rintro key lower upper ⟨-, hlower⟩ ⟨hkey, hupper⟩
  refine ⟨hkey, ?_⟩
  -- only declared properties and required names are joined; else the upper value stays
  unfold combine
  split
  · next lower upper hl =>
    obtain rfl := Option.some.inj hl
    split
    · next hproperties =>
      have hplace : Place.field .inner key = .declared := by simp [Place.field, hproperties]
      simp only [hplace, Tree.isFlat_map] at hlower hupper ⊢
      refine ⟨nofun, fun e he => ?_⟩
      rcases Keyed.mem_or_mem_of_mem_insertAll he with he | he
      · exact hlower.2 e he
      · exact hupper.2 e he
    · exact hupper
  · next lower upper hl =>
    obtain rfl := Option.some.inj hl
    split
    · refine Tree.itemsFlat_iff.2 fun t ht => ?_
      rcases Tree.mem_or_mem_of_mem_joinItems ht with ht | ht
      · exact Tree.itemsFlat_iff.1 hlower t ht
      · exact Tree.itemsFlat_iff.1 hupper t ht
    · exact hupper
  · exact hupper

/-- Where a root is flat its bases are, and so are its other fields. -/
theorem descends_isFlat : Descends (fun t => t.isFlat .root = true) IsFlatField where
  combined := keptByCombine_isFlatField
  own fields h e he hkey := by
    have hplace : Place.root.field e.1 = Place.inner.field e.1 := by simp [Place.field, hkey]
    exact ⟨hkey, hplace ▸ (Tree.isFlat_map.1 h).2 e he⟩
  bases fields bases h hfound base hbase :=
    Tree.isFlat_listed ((Tree.isFlat_map.1 h).2 _ (Keyed.mem_of_find? hfound)) hbase

/-- A document that inherits at its root and at the roots of its bases only is merged to a flat
tree. -/
theorem isFlat_inherit {t u : Tree} (ht : t.isFlat .root = true) (h : t.inherit = .ok u) :
    u.isFlat .inner = true := by
  cases t with
  | map fields =>
    obtain ⟨merged, rfl, hall⟩ := forall_inherit descends_isFlat ht h
    exact Tree.isFlat_map.2 ⟨fun _ e he => (hall e he).1, fun e he => (hall e he).2⟩
  | _ =>
    obtain rfl := Except.ok.inj h
    exact ht

/-! ## Contents -/

/-- A content is flat if the documents that it is made of inherit at their roots and at the roots of
their bases only. -/
theorem isFlat_inlined {lib : Library} {p : DocumentPath} {t : Tree} {n : Nat}
    (hroots : ∀ q raw, lib.Reaches p q → lib.parse q = .ok raw → raw.isFlat .root = true)
    (h : lib.inlined n p = some t) : t.isFlat .inner = true := by
  induction n generalizing p t with
  | zero => cases h
  | succ n ih =>
    obtain ⟨raw, hraw, hcontents, hinherit⟩ := inlined_succ_iff_target.1 h
    -- the document itself is merged at its root; what it refers to is flat by a level less
    refine isFlat_inherit (Tree.isFlat_substitute raw (fun r hr => ?_) ?_) hinherit
    · obtain ⟨u, hu⟩ := hcontents r hr
      exact ⟨u, hu, ih (fun q raw hq => hroots q raw (.head (refers_target hraw hr) hq)) hu⟩
    · exact hroots p raw .refl hraw

/-- Inheritance is flattened where it is written at the root of a document or of a base. Whatever
was asked of the library before, if it can be composed then no map in the schema of an event
inherits, other than maps of declared properties, provided that the document of the event and those
it reaches write inheritance at these places only. -/
theorem compose_flattened (lib : Library) (requests : List Request) (catalog : Catalog)
    (h : (lib.compose (lib.after requests)).1 = .ok catalog) (event : Event)
    (hevent : event ∈ catalog.events)
    (hroots : ∀ q raw, lib.Reaches event.document q → lib.parse q = .ok raw →
      raw.isFlat .root = true) :
    ∀ t : Tree, t.NodeOf event.schema → t.field? extendsKey = none := by
  rw [compose_eq (after_atRest lib requests)] at h
  obtain ⟨-, hevents⟩ := enterAll_spec h
  rcases hevents event hevent with hevent | ⟨-, hschema⟩
  · cases hevent
  · have hflat := isFlat_inlined hroots (content_eq_ok_iff.1 hschema)
    exact fun t ht => ht.field?_eq_none hflat

/-! ## Bases of bases -/

/-- A document whose base has a base of its own, and declares a property with the name `extends`. -/
def invoicePath : DocumentPath := ⟨["invoice.json".toList], by decide⟩

/-- The document that all inherit from. -/
def recordPath : DocumentPath := ⟨["record.json".toList], by decide⟩

/-- The library of the two. -/
def invoiceLibrary : Library :=
  .ofTexts
    [(invoicePath, "\x7b\"title\":\"Invoice\",\"extends\":\x7b\"extends\":\x7b\"$ref\":" ++
      "\"record.json\"\x7d,\"properties\":\x7b\"extends\":\x7b\"type\":\"string\"\x7d\x7d\x7d\x7d"),
    (recordPath, "\x7b\"title\":\"Record\",\"required\":[\"id\"]\x7d")]

/-- The event of the first document. -/
def invoiceEvent : Event :=
  ⟨"Invoice", invoicePath, .map [("properties", .map [("extends", .map [("type", .str "string")])]),
    ("required", .seq [.str "id"]), ("title", .str "Invoice")]⟩

/-- The bases of the first document are merged, and theirs are. -/
theorem compose_invoiceLibrary_flattened :
    ∃ catalog, (invoiceLibrary.compose (invoiceLibrary.after [])).1 = .ok catalog ∧
      invoiceEvent ∈ catalog.events ∧
      (∀ q raw, invoiceLibrary.Reaches invoiceEvent.document q →
        invoiceLibrary.parse q = .ok raw → raw.isFlat .root = true) ∧
      ∀ t : Tree, t.NodeOf invoiceEvent.schema → t.field? extendsKey = none := by
  have hparsed : ∀ q ∈ invoiceLibrary.documents, (match invoiceLibrary.parse q with
      | .ok raw => raw.isFlat .root
      | .error _ => true) = true := by decide +kernel
  have hroots : ∀ q raw, invoiceLibrary.Reaches invoiceEvent.document q →
      invoiceLibrary.parse q = .ok raw → raw.isFlat .root = true := by
    intro q raw _ hraw
    have hroot := hparsed q (contains_iff.1 (contains_of_parse hraw))
    rwa [hraw] at hroot
  have hcompose : ((invoiceLibrary.compose (invoiceLibrary.after [])).1.toOption.map
      fun catalog => decide (invoiceEvent ∈ catalog.events)) = some true := by decide +kernel
  obtain ⟨catalog, hcatalog, hevent⟩ := Option.map_eq_some_iff.1 hcompose
  have hok := toOption_eq_some_iff.1 hcatalog
  have hmem := of_decide_eq_true hevent
  exact ⟨catalog, hok, hmem, hroots, compose_flattened _ _ _ hok _ hmem hroots⟩

/-! ## Inheritance in a property -/

/-- A document with a property that inherits. -/
def orderPath : DocumentPath := ⟨["s".toList, "Order.json".toList], by decide⟩

/-- The document that the property inherits from. -/
def personPath : DocumentPath := ⟨["s".toList, "Person.json".toList], by decide⟩

/-- The library of the two. -/
def orderLibrary : Library :=
  .ofTexts
    [(orderPath, "\x7b\"title\":\"Order\",\"properties\":\x7b\"buyer\":\x7b\"extends\":" ++
      "\x7b\"$ref\":\"Person.json\"\x7d\x7d\x7d\x7d"),
    (personPath, "\x7b\"title\":\"Person\",\"properties\":\x7b\"name\":\x7b\"type\":" ++
      "\"string\"\x7d\x7d\x7d")]

/-- The schema of the base. -/
def personSchema : Tree :=
  .map [("properties", .map [("name", .map [("type", .str "string")])]), ("title", .str "Person")]

/-- The property as it is left: its base is put in, and not merged. -/
def buyerSchema : Tree := .map [("extends", personSchema)]

/-- The catalog of the library. -/
def orderCatalog : Catalog :=
  Catalog.empty
    |>.insert ⟨"Order", orderPath,
      .map [("properties", .map [("buyer", buyerSchema)]), ("title", .str "Order")]⟩
    |>.insert ⟨"Person", personPath, personSchema⟩

/-- Not every schema is flat: the library can be composed, and the property still inherits. -/
theorem compose_orderLibrary_not_flat :
    (orderLibrary.compose (orderLibrary.after [])).1 = .ok orderCatalog ∧
      ∃ event ∈ orderCatalog.events, ∃ t : Tree, t.NodeOf event.schema ∧
        t.field? extendsKey ≠ none := by
  refine ⟨toOption_eq_some_iff.1 (by decide +kernel), _, List.mem_cons_self, buyerSchema, ?_,
    by decide⟩
  have hbuyer : ("buyer", buyerSchema) ∈ [("buyer", buyerSchema)] := List.mem_cons_self
  exact .field hbuyer (by decide) (.field List.mem_cons_self .self)

end EventSchema
