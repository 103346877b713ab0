import EventSchema.Proofs.LoweringSound
import EventSchema.Proofs.MergedLayers
import EventSchema.Proofs.NormalTypes

/-!
# Types of schemas that inherit

The object type of a schema with everything it inherits, from the layers of the schema.

* `unionOf_eq_object`, `lower_eq_object` — where no other keyword decides, an object type comes from
  the schema's own `type` or `properties`, and has the properties that the schema declares;
* `find?_declaredSchemas`, `mem_requiredNames_iff` — the declared properties and the required names
  of a map with everything it inherits, from those of its layers;
* `members_of_layers` — so each property that some layer declares is a member, with the type and the
  description of its last declaration, and it is optional unless some layer requires it;
* `members_contactSchema` — where the one schema of `oneOf` decides, the members are those of that
  schema and not those that are inherited.
-/

namespace EventSchema.TypeScript

open TypeExpr

variable {fields document merged : Fields} {layers : List Fields} {parts : Parts} {name : String}
  {ts : List TypeExpr} {members : List (Member × TypeExpr)} {index : Option TypeExpr}

/-! ## Where object types come from -/

/-- A type that is no union, and that has certain members if it is an object type. -/
structure HasOnly (members : List (Member × TypeExpr)) (t : TypeExpr) : Prop where
  single : t.isUnion = false
  object : ∀ found index, t = .object found index → found = members

/-- A union of types that have only certain members has only these if it is an object type. -/
theorem unionOf_eq_object (h : ∀ t ∈ ts, HasOnly members t) {found : List (Member × TypeExpr)}
    (hobject : unionOf ts = .object found index) : found = members := by
  have hmem : ∀ a ∈ distinct (ts.flatMap alternatives), a ∈ ts := by
    intro a ha
    obtain ⟨t, ht, ha⟩ := List.mem_flatMap.1 (mem_distinct.1 ha)
    rw [alternatives_of_not_isUnion (h t ht).single, List.mem_singleton] at ha
    exact ha ▸ ht
  dsimp only [unionOf] at hobject
  split at hobject
  · cases hobject
  · -- one type alone may be an object type, and it is one of the given types
    revert hobject
    refine collapse_cases (P := fun t => t = .object found index → found = members) nofun ?_ nofun
    intro a ha hobject
    exact (h a (hmem a (List.mem_filter.1 ha).1)).object found index hobject

/-- The type of one value is no object type. -/
theorem hasOnly_literalType (members : List (Member × TypeExpr)) (value : Tree) :
    HasOnly members (literalType value) := by
  cases value <;> exact ⟨rfl, fun _ _ h => by cases h⟩

/-- The object type of a schema has the properties that the schema declares. -/
theorem hasOnly_objectType (parts : Parts) (fields : Fields) :
    HasOnly (parts.members fields) (parts.objectType fields) := by
  unfold Parts.objectType
  dsimp only
  split <;> exact ⟨rfl, fun _ _ h => (TypeExpr.object.inj h).1.symm⟩

/-- The type that a name stands for has the properties of the schema, if it is an object type. -/
theorem hasOnly_typeNamed (parts : Parts) (fields : Fields) (name : String) :
    HasOnly (parts.members fields) (parts.typeNamed fields name) := by
  by_cases hname : name = "object"
  · subst hname
    exact hasOnly_objectType parts fields
  · rw [Parts.typeNamed, if_neg hname]
    split_ifs <;> exact ⟨rfl, fun _ _ h => by cases h⟩

/-- The same for an entry of a list of names. -/
theorem hasOnly_typeOfEntry (parts : Parts) (fields : Fields) (entry : Tree) :
    HasOnly (parts.members fields) (parts.typeOfEntry fields entry) := by
  cases entry with
  | str name => exact hasOnly_typeNamed parts fields name
  | _ => exact ⟨rfl, fun _ _ h => by cases h⟩

/-- The type that the shape of a schema suggests has the properties of the schema, if it is an
object type. -/
theorem shapeType_eq_object (h : parts.shapeType fields = .object members index) :
    members = parts.members fields := by
  unfold Parts.shapeType at h
  split at h
  · exact (hasOnly_typeNamed parts fields _).object _ _ h
  · refine unionOf_eq_object (fun t ht => ?_) h
    obtain ⟨entry, -, rfl⟩ := List.mem_map.1 ht
    exact hasOnly_typeOfEntry parts fields entry
  · split at h
    · exact (hasOnly_objectType parts fields).object _ _ h
    · split at h
      · exact (hasOnly_typeNamed parts fields "array").object _ _ h
      · cases h

/-- The keywords whose schemas decide alone. -/
def branchKeys : List String := ["oneOf", "anyOf", "allOf"]

/-- Where the schemas of no other keyword decide, an object type has the properties of the schema
itself. -/
theorem lower_eq_object (hbranches : ∀ key ∈ branchKeys, listAt? key fields = none)
    (h : lower (.map fields) = .object members index) :
    members = (partsOf fields).members fields := by
  have hnone : ∀ key ∈ branchKeys, branchesAt key fields = none := by
    intro key hkey
    rw [branchesAt_eq, hbranches key hkey, Option.map_none]
  have honeOf : (partsOf fields).oneOf = none := hnone "oneOf" (by decide)
  have hanyOf : (partsOf fields).anyOf = none := hnone "anyOf" (by decide)
  have hallOf : (partsOf fields).allOf = none := hnone "allOf" (by decide)
  rw [lower_map, Parts.type, honeOf, hanyOf, hallOf] at h
  split at h
  · exact (hasOnly_literalType _ _).object _ _ h
  · refine unionOf_eq_object (fun t ht => ?_) h
    obtain ⟨value, -, rfl⟩ := List.mem_map.1 ht
    exact hasOnly_literalType _ value
  · contradiction
  · contradiction
  · contradiction
  · exact shapeType_eq_object h

/-! ## What the layers declare and require -/

/-- What a map with everything it inherits declares is the last declaration in its layers. -/
theorem find?_declaredSchemas (hlaw : MergeLaw document layers merged) (hmaps : DeclareMaps layers)
    (name : String) :
    Keyed.find? name (declaredSchemas merged) = topmost? (declaration? name) layers := by
  rw [declaredSchemas]
  cases hfound : Keyed.find? propertiesKey merged with
  | none =>
    have hnone : ∀ layer ∈ layers, Keyed.find? propertiesKey layer = none := by
      have hkeys := hlaw.keys propertiesKey
      rw [Keyed.has, hfound] at hkeys
      simpa [Keyed.has] using hkeys.symm
    refine (topmost?_eq_none fun layer hlayer => ?_).symm
    rw [declaration?, Fields.declared?, hnone layer hlayer, Option.bind_none]
  | some t =>
    obtain ⟨declared, rfl, hdeclared⟩ := hlaw.declared hmaps t hfound
    exact hdeclared name

/-- A list has a text just if it has a value equal to it. -/
theorem any_same_str (list : List Tree) (name : String) :
    list.any (·.same (.str name)) = true ↔ .str name ∈ list := by
  rw [List.any_eq_true]
  constructor
  · rintro ⟨t, ht, hsame⟩
    cases t with
    | str other =>
      obtain rfl : other = name := by simpa [Tree.same] using hsame
      exact ht
    | _ => cases hsame
  · intro h
    exact ⟨_, h, by simp [Tree.same]⟩

/-- The names that a map with everything it inherits requires are those that its layers require. -/
theorem mem_requiredNames_iff (hlaw : MergeLaw document layers merged)
    (hlists : RequireLists layers) (name : String) : name ∈ requiredNames merged ↔
      ∃ layer ∈ layers, ∃ list, Fields.required? layer = some list ∧ .str name ∈ list := by
  have hnames : ∀ list : List Tree, name ∈ list.filterMap Tree.string? ↔ .str name ∈ list := by
    intro list
    rw [List.mem_filterMap]
    constructor
    · rintro ⟨t, ht, hname⟩
      cases t with
      | str other => exact Option.some.inj hname ▸ ht
      | _ => cases hname
    · exact fun h => ⟨_, h, rfl⟩
  rw [requiredNames, hnames, listAt?]
  cases hfound : Keyed.find? requiredKey merged with
  | none =>
    have hkeys := hlaw.keys requiredKey
    rw [Keyed.has, hfound] at hkeys
    have hnone : ∀ layer ∈ layers, Keyed.find? requiredKey layer = none := by
      simpa [Keyed.has] using hkeys.symm
    constructor
    · intro h
      cases h
    · rintro ⟨layer, hlayer, list, hlist, -⟩
      rw [Fields.required?, hnone layer hlayer] at hlist
      cases hlist
  | some t =>
    obtain ⟨items, rfl, hitems, -⟩ := hlaw.required hlists t hfound
    change .str name ∈ items ↔ _
    simpa only [any_same_str] using hitems (.str name)

/-- The names of properties are in order. -/
theorem sorted_declaredSchemas (h : (Tree.map fields).isOrdered = true) :
    Keyed.Sorted (declaredSchemas fields) := by
  rw [declaredSchemas]
  split
  · next hfound => exact (Tree.isOrdered_map.1 (Tree.isOrdered_find? h hfound)).1
  · exact Keyed.sorted_nil

/-! ## Members -/

/-- The members of the object type of a schema that inherits. Its layers may declare properties in
maps and require names in lists only, and none of the keywords that decide alone may be left in the
schema with its list of schemas. Then the members are in the order of their names, each once, and
their names are those that some layer declares. The type and the description of a member are those
of the last declaration, and it is optional just if no layer requires it. -/
theorem members_of_layers (document merged : Fields) (layers : List Fields)
    (hordered : (Tree.map document).isOrdered = true) (hlayers : HasLayers document layers)
    (hmerged : (Tree.map document).inherit = .ok (.map merged)) (hmaps : DeclareMaps layers)
    (hlists : RequireLists layers) (hbranches : ∀ key ∈ branchKeys, listAt? key merged = none)
    (members : List (Member × TypeExpr)) (index : Option TypeExpr)
    (hobject : lower (.map merged) = .object members index) :
    (members.map (·.1.name)).Pairwise (· < ·) ∧
    (∀ name, name ∈ members.map (·.1.name) ↔
      ∃ layer ∈ layers, (declaration? name layer).isSome = true) ∧
    ∀ m ∈ members, ∃ schema, topmost? (declaration? m.1.name) layers = some schema ∧
      m.2 = lower schema ∧ m.1.doc = (schema.field? "description").bind Tree.string? ∧
      (m.1.optional = true ↔ ∀ layer ∈ layers, ∀ list, Fields.required? layer = some list →
        .str m.1.name ∉ list) := by
  have hlaw := hlayers.mergeLaw hordered hmerged
  have hsorted := sorted_declaredSchemas (isOrdered_inherit hordered hmerged)
  have hnames : members.map (·.1.name) = Keyed.keys (declaredSchemas merged) := by
    rw [lower_eq_object hbranches hobject, members_partsOf, List.map_map]
    rfl
  refine ⟨hnames ▸ hsorted, fun name => ?_, fun m hm => ?_⟩
  · rw [hnames, Keyed.mem_keys_iff, find?_declaredSchemas hlaw hmaps, topmost?,
      List.findSome?_isSome_iff]
    simp
  · rw [lower_eq_object hbranches hobject, members_partsOf] at hm
    obtain ⟨d, hd, rfl⟩ := List.mem_map.1 hm
    refine ⟨d.2, ?_, rfl, rfl, ?_⟩
    · rw [← find?_declaredSchemas hlaw hmaps]
      exact hsorted.find?_eq_some_iff.2 hd
    · have hrequired := mem_requiredNames_iff hlaw hlists d.1
      simp only [Bool.not_eq_true', List.contains_eq_mem, decide_eq_false_iff_not, hrequired]
      simp

/-! ## A paid order -/

/-- An order that was paid. It inherits from a base with a base of its own and from a second one,
which describes the number again and requires what the first one declares. -/
def paidSchema : Fields :=
  [("extends", .seq
      [.map [("extends", .map [("properties", .map [("at", .map [("type", .str "string")])])]),
          ("properties", .map [("no", .map [("type", .str "string")])]), ("title", .str "Order")],
        .map [("properties", .map
            [("no", .map [("description", .str "from 1"), ("type", .str "integer")])]),
          ("required", .seq [.str "at"])]]),
    ("properties", .map [("by", .bool true)]),
    ("required", .seq [.str "by", .str "at"]), ("title", .str "Paid"), ("type", .str "object")]

/-- Its layers. -/
def paidLayers : List Fields :=
  [[("properties", .map
      [("at", .map [("type", .str "string")]), ("no", .map [("type", .str "string")])])],
    [("properties", .map
        [("no", .map [("description", .str "from 1"), ("type", .str "integer")])]),
      ("required", .seq [.str "at"])],
    [("properties", .map [("by", .bool true)]), ("required", .seq [.str "by", .str "at"]),
      ("title", .str "Paid"), ("type", .str "object")]]

/-- A paid order with everything it inherits. -/
def paidMerged : Fields :=
  [("properties", .map
      [("at", .map [("type", .str "string")]), ("by", .bool true),
        ("no", .map [("description", .str "from 1"), ("type", .str "integer")])]),
    ("required", .seq [.str "at", .str "by"]), ("title", .str "Paid"), ("type", .str "object")]

/-- The members of the type of paid orders. -/
def paidMembers : List (Member × TypeExpr) :=
  [(⟨"at", false, none⟩, .named "string"), (⟨"by", false, none⟩, unknown),
    (⟨"no", true, some "from 1"⟩, .named "number")]

/-- The members of the type of paid orders come from the layers: the number is that of the second
base, and the time is declared by one layer and required by others. -/
theorem members_paidLayers :
    (Tree.map paidSchema).isOrdered = true ∧ HasLayers paidSchema paidLayers ∧
      (Tree.map paidSchema).inherit = .ok (.map paidMerged) ∧ DeclareMaps paidLayers ∧
      RequireLists paidLayers ∧ (∀ key ∈ branchKeys, listAt? key paidMerged = none) ∧
      lower (.map paidMerged) = .object paidMembers (some unknown) ∧
      ∀ m ∈ paidMembers, ∃ schema, topmost? (declaration? m.1.name) paidLayers = some schema ∧
        m.2 = lower schema := by
  have hordered : (Tree.map paidSchema).isOrdered = true := by decide +kernel
  have hinherit : (Tree.map paidSchema).inherit = .ok (.map paidMerged) := by decide +kernel
  have hlayers : HasLayers paidSchema paidLayers :=
    ⟨_, [_, _], rfl, .cons ⟨_, rfl, rfl⟩ (.cons ⟨_, rfl, rfl⟩ .nil), rfl⟩
  have hmaps : DeclareMaps paidLayers := by decide +kernel
  have hlists : RequireLists paidLayers := by decide +kernel
  have hbranches : ∀ key ∈ branchKeys, listAt? key paidMerged = none := by decide +kernel
  have hobject : lower (.map paidMerged) = .object paidMembers (some unknown) := by decide +kernel
  obtain ⟨-, -, hmembers⟩ := members_of_layers paidSchema paidMerged paidLayers hordered hlayers
    hinherit hmaps hlists hbranches paidMembers (some unknown) hobject
  refine ⟨hordered, hlayers, hinherit, hmaps, hlists, hbranches, hobject, fun m hm => ?_⟩
  obtain ⟨schema, hschema, htype, -⟩ := hmembers m hm
  exact ⟨schema, hschema, htype⟩

/-! ## A choice of one -/

/-- Who has a name. -/
def namedFields : Fields := [("name", .map [("type", .str "string")])]

/-- Who has an address. -/
def mailedFields : Fields := [("mail", .map [("type", .str "string")])]

/-- A contact has a name, and it is of one kind, of which there is only one. -/
def contactSchema : Fields :=
  [("extends", .map [("properties", .map namedFields)]),
    ("oneOf", .seq [.map [("properties", .map mailedFields)]])]

/-- The type of contacts is an object type with a member that no layer declares, and without the
one that is declared: it is the type of the only kind. -/
theorem members_contactSchema :
    ∃ layers merged members index, (Tree.map contactSchema).isOrdered = true ∧
      HasLayers contactSchema layers ∧
      (Tree.map contactSchema).inherit = .ok (.map merged) ∧ DeclareMaps layers ∧
      RequireLists layers ∧ lower (.map merged) = .object members index ∧
      ("mail" ∈ members.map (·.1.name) ∧
        ¬∃ layer ∈ layers, (declaration? "mail" layer).isSome = true) ∧
      "name" ∉ members.map (·.1.name) ∧
        ∃ layer ∈ layers, (declaration? "name" layer).isSome = true := by
  have hlayers : HasLayers contactSchema [[("properties", .map namedFields)],
      [("oneOf", .seq [.map [("properties", .map mailedFields)]])]] :=
    ⟨_, [_], rfl, .cons ⟨_, rfl, rfl⟩ .nil, rfl⟩
  have hobject : lower (.map [("oneOf", .seq [.map [("properties", .map mailedFields)]]),
      ("properties", .map namedFields)]) =
        .object [(⟨"mail", true, none⟩, .named "string")] (some unknown) := by decide +kernel
  exact ⟨_, _, _, _, by decide +kernel, hlayers, by decide +kernel, by decide +kernel,
    by decide +kernel, hobject, by decide +kernel, by decide +kernel, by decide +kernel⟩

end EventSchema.TypeScript
