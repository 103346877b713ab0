import EventSchema.Proofs.Acceptance
import EventSchema.Proofs.Inhabitation

/-!
# Lowering is sound

Every document that a schema accepts is a value of the type of the schema.

* `branchesAt_eq`, `typeAt_eq`, `itemsType_eq`, `declaredIn_eq` — the types of the schemas within a
  schema, from the schemas under its keys;
* `inhabits_typeNamed`, `inhabits_shapeType`, `inhabits_lower_map` — a document that conforms to a
  schema, when all schemas within are taken for their types, is a value of the type that the rules
  for names, for shapes and for keywords give;
* `inhabits_lower_of_accepts` — so lowering is sound, by induction on the schema.
-/

namespace EventSchema.TypeScript

open TypeExpr

variable {integer : Number → Prop} {fields : Fields} {v : Tree} {entries : Fields}
  {elements : List Tree}

/-! ## Lowering, key by key -/

/-- The types of some schemas, one by one. -/
theorem lowerEach_eq (schemas : List Tree) : lowerEach schemas = schemas.map lower := by
  induction schemas with
  | nil => rfl
  | cons t ts ih => rw [lowerEach, ih, List.map_cons]

/-- The types of the branches under a key. -/
theorem branchesAt_eq (key : String) (fields : Fields) :
    branchesAt key fields = (listAt? key fields).map (·.map lower) := by
  induction fields with
  | nil => rfl
  | cons e rest ih =>
    obtain ⟨k, t⟩ := e
    rw [listAt?] at ih ⊢
    by_cases hk : k = key
    · cases t <;> simp [branchesAt, hk, Keyed.find?, lowerEach_eq]
    · cases t <;> simp [branchesAt, hk, Keyed.find?, ih]

/-- The type of the schema under a key. -/
theorem typeAt_eq (key : String) (fields : Fields) :
    typeAt key fields = (Keyed.find? key fields).map lower := by
  induction fields with
  | nil => rfl
  | cons e rest ih =>
    obtain ⟨k, t⟩ := e
    rw [typeAt, ih]
    by_cases hk : k = key <;> simp [hk, Keyed.find?]

/-- The type of the elements, from the schemas for them. -/
theorem itemsType_eq (fields : Fields) :
    itemsType fields = (Keyed.find? "items" fields).map fun
      | .seq schemas => unionOf (schemas.map lower)
      | schema => lower schema := by
  induction fields with
  | nil => rfl
  | cons e rest ih =>
    obtain ⟨k, t⟩ := e
    by_cases hk : k = "items"
    · cases t <;> simp [itemsType, hk, Keyed.find?, lowerEach_eq]
    · cases t <;> simp [itemsType, hk, Keyed.find?, ih]

/-- A declared property with the type of its schema. -/
def declare (property : String × Tree) : Declared :=
  ⟨property.1, (property.2.field? "description").bind Tree.string?, lower property.2⟩

/-- The declared properties, from their schemas. -/
theorem declaredIn_eq (fields : Fields) :
    declaredIn fields = (declaredSchemas fields).map declare := by
  have heach : ∀ properties : Fields, declareEach properties = properties.map declare := by
    intro properties
    induction properties with
    | nil => rfl
    | cons p ps ih =>
      obtain ⟨name, t⟩ := p
      rw [declareEach, ih, List.map_cons]
      rfl
  induction fields with
  | nil => rfl
  | cons e rest ih =>
    obtain ⟨k, t⟩ := e
    rw [declaredSchemas] at ih ⊢
    by_cases hk : k = propertiesKey
    · cases t <;> simp [declaredIn, hk, Keyed.find?, heach]
    · cases t <;> simp [declaredIn, hk, Keyed.find?, ih]

/-- The types of the schemas within a schema that is a map. -/
def partsOf (fields : Fields) : Parts where
  oneOf := branchesAt "oneOf" fields
  anyOf := branchesAt "anyOf" fields
  allOf := branchesAt "allOf" fields
  items := itemsType fields
  properties := declaredIn fields
  extra := typeAt "additionalProperties" fields

/-- The type of a schema that is a map. -/
theorem lower_map (fields : Fields) : lower (.map fields) = (partsOf fields).type fields := rfl

/-- The members of the object type of a schema. -/
theorem members_partsOf (fields : Fields) :
    (partsOf fields).members fields = (declaredSchemas fields).map fun d =>
      (⟨d.1, !(requiredNames fields).contains d.1, (declare d).doc⟩, lower d.2) := by
  rw [Parts.members, partsOf, declaredIn_eq, List.map_map]
  rfl

/-! ## Shapes -/

/-- A document that conforms to a schema when all schemas within are taken for their types. -/
abbrev ConformsToTypes (integer : Number → Prop) (fields : Fields) (v : Tree) : Prop :=
  Conforms integer (fun schema x => Inhabits (lower schema) x) fields v

/-- A sequence that conforms to a schema has elements of the type for elements. -/
theorem inhabits_arrayType (hv : ConformsToTypes integer fields (.seq elements)) :
    Inhabits (.array ((partsOf fields).items.getD unknown)) (.seq elements) := by
  rw [Inhabits]
  refine ⟨elements, rfl, fun x hx => ?_⟩
  rw [partsOf, itemsType_eq]
  cases hfound : Keyed.find? "items" fields with
  | none => exact inhabits_unknown
  | some schema =>
    obtain ⟨branch, hbranch, hx⟩ := hv.items elements rfl schema hfound x hx
    cases schema with
    | seq schemas => exact inhabits_unionOf.2 ⟨_, List.mem_map_of_mem hbranch, hx⟩
    | _ =>
      rw [List.mem_singleton.1 hbranch] at hx
      exact hx

/-- A map that conforms to a schema is a value of the object type, if its other values have the type
of the index. -/
theorem inhabits_object (hv : ConformsToTypes integer fields (.map entries))
    {index : Option TypeExpr}
    (hclosed : index = none → ∀ e ∈ entries, e.1 ∈ Keyed.keys (declaredSchemas fields))
    (hindex : ∀ other, index = some other → ∀ e ∈ entries, Inhabits other e.2) :
    Inhabits (.object ((partsOf fields).members fields) index) (.map entries) := by
  rw [Inhabits, members_partsOf]
  refine ⟨entries, rfl, ?_, ?_, ?_, hindex⟩
  · rintro p hp hrequired
    obtain ⟨d, hd, rfl⟩ := List.mem_map.1 hp
    exact hv.required entries rfl d.1 (by simpa using hrequired)
  · rintro p hp e he hname
    obtain ⟨d, hd, rfl⟩ := List.mem_map.1 hp
    exact hv.declared entries rfl d hd e he hname
  · intro hnone e he
    obtain ⟨d, hd, hname⟩ := List.mem_map.1 (hclosed hnone e he)
    exact ⟨_, List.mem_map_of_mem hd, hname⟩

/-- The values of the index type are those of the declared properties and those under other keys. -/
theorem inhabits_indexType {extra : TypeExpr} {members : List (Member × TypeExpr)}
    (h : Inhabits extra v ∨ ∃ m ∈ members, Inhabits m.2 v) :
    Inhabits (Parts.indexType extra members) v := by
  rw [Parts.indexType, inhabits_unionOf]
  rcases h with h | ⟨m, hm, h⟩
  · exact ⟨extra, List.mem_append_left _ List.mem_cons_self, h⟩
  · have hmem : m.2 ∈ members.map (·.2) := List.mem_map_of_mem hm
    exact ⟨m.2, List.mem_append_left _ (List.mem_cons_of_mem _ hmem), h⟩

/-- A map that conforms to a schema is a value of its object type. -/
theorem inhabits_objectType (hv : ConformsToTypes integer fields (.map entries)) :
    Inhabits ((partsOf fields).objectType fields) (.map entries) := by
  unfold Parts.objectType
  dsimp only
  split
  · next hfound =>
    refine inhabits_object hv (fun _ e he => ?_) nofun
    by_cases hname : e.1 ∈ Keyed.keys (declaredSchemas fields)
    · exact hname
    -- the value under another key would be a value of the type of `false`
    · exact absurd (hv.extra entries rfl _ hfound e he hname) not_inhabits_never
  · refine inhabits_object hv nofun fun other hother e he => ?_
    rw [← Option.some.inj hother]
    exact inhabits_unknown
  · refine inhabits_object hv nofun fun other hother e he => ?_
    rw [← Option.some.inj hother]
    exact inhabits_unknown
  · next schema _ _ hfound =>
    refine inhabits_object hv nofun fun other hother e he => ?_
    rw [← Option.some.inj hother]
    -- the index is about declared keys as well, which is why it was widened
    refine inhabits_indexType ?_
    by_cases hname : e.1 ∈ Keyed.keys (declaredSchemas fields)
    · obtain ⟨d, hd, hname⟩ := List.mem_map.1 hname
      rw [members_partsOf]
      exact .inr ⟨_, List.mem_map_of_mem hd, hv.declared entries rfl d hd e he hname.symm⟩
    · refine .inl ?_
      rw [partsOf, typeAt_eq, hfound]
      exact hv.extra entries rfl schema hfound e he hname

/-- A name that is not known stands for the type of all values. -/
theorem typeNamed_of_not_mem {name : String} (parts : Parts) (hname : name ∉ kindNames) :
    parts.typeNamed fields name = unknown := by
  simp only [kindNames, List.mem_cons, List.not_mem_nil, or_false, not_or] at hname
  obtain ⟨hstring, hinteger, hnumber, hboolean, hnull, harray, hobject⟩ := hname
  rw [Parts.typeNamed, if_neg hstring, if_neg hinteger, if_neg hnumber, if_neg hboolean,
    if_neg hnull, if_neg harray, if_neg hobject]

/-- A document of the kind that a name stands for is a value of the type for the name. -/
theorem inhabits_typeNamed {name : String} (hkind : IsOfKind integer name v)
    (hv : ConformsToTypes integer fields v) :
    Inhabits ((partsOf fields).typeNamed fields name) v := by
  cases hkind with
  | string value => exact inhabits_named.2 (.string value)
  | integer value => exact inhabits_named.2 (.number value)
  | number value => exact inhabits_named.2 (.number value)
  | boolean value => exact inhabits_named.2 (.boolean value)
  | null => exact inhabits_named.2 .null
  | array => exact inhabits_arrayType hv
  | object => exact inhabits_objectType hv
  | other _ _ hname =>
    rw [typeNamed_of_not_mem _ hname]
    exact inhabits_unknown

/-- A document that conforms to a schema is a value of the type for its shape. -/
theorem inhabits_shapeType (hv : ConformsToTypes integer fields v) :
    Inhabits ((partsOf fields).shapeType fields) v := by
  have htype := hv.type
  rw [HasType] at htype
  rw [Parts.shapeType]
  split
  · next name hfound =>
    simp only [hfound] at htype
    exact inhabits_typeNamed htype hv
  · next names hfound =>
    simp only [hfound] at htype
    obtain ⟨entry, hentry, hkind⟩ := htype
    refine inhabits_unionOf.2 ⟨_, List.mem_map_of_mem hentry, ?_⟩
    cases entry with
    | str name => exact inhabits_typeNamed (hkind name rfl) hv
    | _ => exact inhabits_unknown
  · next hstr hseq =>
    -- `type` says nothing, so the other keys suggest the same shape on both sides
    split at htype
    · next name hfound => exact absurd hfound (hstr name)
    · next names hfound => exact absurd hfound (hseq names)
    · split at htype
      · next hproperties =>
        rw [if_pos hproperties]
        exact inhabits_typeNamed htype hv
      · next hproperties =>
        rw [if_neg hproperties]
        split at htype
        · next hitems =>
          rw [if_pos hitems]
          exact inhabits_typeNamed htype hv
        · next hitems =>
          rw [if_neg hitems]
          exact inhabits_unknown

/-! ## Schemas -/

/-- A value of the type of one branch is a value of the union of all of them. -/
theorem inhabits_someBranch {branches : List Tree}
    (h : ∃ branch ∈ branches, Inhabits (lower branch) v) :
    Inhabits (unionOf (branches.map lower)) v := by
  obtain ⟨branch, hbranch, hv⟩ := h
  exact inhabits_unionOf.2 ⟨_, List.mem_map_of_mem hbranch, hv⟩

/-- The schemas of the branches whose types are found under a key. -/
theorem branches_of_branchesAt {key : String} {types : List TypeExpr}
    (h : branchesAt key fields = some types) :
    ∃ branches, listAt? key fields = some branches ∧ branches.map lower = types := by
  rw [branchesAt_eq] at h
  exact Option.map_eq_some_iff.1 h

/-- A document that conforms to a schema when all schemas within are taken for their types is a
value of the type of the schema. The rules read one keyword, and the document meets them all. -/
theorem inhabits_lower_map (hv : ConformsToTypes integer fields v) :
    Inhabits (lower (.map fields)) v := by
  rw [lower_map, Parts.type]
  split
  · next value hconst => exact inhabits_literalType (hv.const value hconst)
  · next values _ henum =>
    obtain ⟨value, hvalue, hsame⟩ := hv.enum values henum
    exact inhabits_unionOf.2 ⟨_, List.mem_map_of_mem hvalue, inhabits_literalType hsame⟩
  · next types _ _ honeOf =>
    obtain ⟨branches, hbranches, rfl⟩ := branches_of_branchesAt honeOf
    exact inhabits_someBranch (hv.oneOf branches hbranches)
  · next types _ _ _ hanyOf =>
    obtain ⟨branches, hbranches, rfl⟩ := branches_of_branchesAt hanyOf
    exact inhabits_someBranch (hv.anyOf branches hbranches)
  · next types _ _ _ _ hallOf =>
    obtain ⟨branches, hbranches, rfl⟩ := branches_of_branchesAt hallOf
    rw [inhabits_intersectionOf]
    intro type htype
    obtain ⟨branch, hbranch, rfl⟩ := List.mem_map.1 htype
    exact hv.allOf branches hbranches branch hbranch
  · exact inhabits_shapeType hv

/-- Lowering is sound: whatever counts as an integer, every document that a schema accepts is a
value of the type of the schema. -/
theorem inhabits_lower_of_accepts (integer : Number → Prop) (schema v : Tree)
    (h : Accepts integer schema v) : Inhabits (lower schema) v := by
  induction hsize : sizeOf schema using Nat.strongRecOn generalizing schema v with
  | ind size ih =>
    cases schema with
    | bool accepted =>
      obtain rfl := accepts_bool.1 h
      exact inhabits_unknown
    | map fields =>
      -- the schemas within are smaller, so each accepts only values of its type
      have hv : ConformsToTypes integer fields v := by
        refine (accepts_map.1 h).mono fun within hlt x hx => ?_
        exact ih (sizeOf within) (hsize ▸ hlt) within x hx rfl
      exact inhabits_lower_map hv
    | _ => exact inhabits_unknown

/-- An order is null, or it has an amount that is 1 or a text, and other keys hold integers. -/
def orderSchema : Tree :=
  .map [("additionalProperties", .map [("type", .str "integer")]),
    ("properties", .map [("amount", .map [("anyOf", .seq [.map [("const", .num (.int 1))],
      .map [("type", .str "string")]])])]),
    ("required", .seq [.str "amount"]),
    ("type", .seq [.str "null", .str "object"])]

/-- An order with one key that is declared and one that is not. -/
def order : Tree := .map [("amount", .str "two"), ("weight", .num (.int 3))]

example : lower orderSchema =
    .union [null,
      .object [(⟨"amount", false, none⟩, .union [.literal "1", .named "string"])]
        (some (.union [.named "number", .literal "1", .named "string"]))] := by
  rfl

/-- A schema that only asks for a kind accepts the documents of that kind. -/
theorem accepts_kind {name : String} (hkind : IsOfKind integer name v) :
    Accepts integer (.map [("type", .str name)]) v := by
  rw [accepts_map]
  constructor
  case type => exact hkind
  all_goals simp [Keyed.find?, listAt?, requiredNames, declaredSchemas, propertiesKey, requiredKey]

/-- The schema of orders accepts an order, which therefore is a value of their type. -/
theorem inhabits_lower_orderSchema :
    Accepts (fun n => ∃ i, n = .int i) orderSchema order ∧ Inhabits (lower orderSchema) order := by
  have hamount : Accepts (fun n => ∃ i, n = .int i) (.map [("anyOf", .seq
      [.map [("const", .num (.int 1))], .map [("type", .str "string")]])]) (.str "two") := by
    rw [accepts_map]
    constructor
    case anyOf =>
      intro branches hbranches
      obtain rfl : _ = branches := Option.some.inj hbranches
      exact ⟨_, List.mem_of_getLast? rfl, accepts_kind (.string "two")⟩
    all_goals simp [HasType, Keyed.find?, listAt?, Keyed.has, propertiesKey]
  have haccepts : Accepts (fun n => ∃ i, n = .int i) orderSchema order := by
    rw [orderSchema, accepts_map]
    constructor
    case type => exact ⟨.str "object", by simp, fun name h => by cases h; exact .object _⟩
    case declared =>
      intro entries hentries d hd e he hname
      obtain rfl := Tree.map.inj hentries
      obtain rfl := List.mem_singleton.1 hd
      simp only [List.mem_cons, List.not_mem_nil, or_false] at he
      rcases he with rfl | rfl
      · exact hamount
      · exact absurd hname (by decide)
    case extra =>
      intro entries hentries schema hschema e he hname
      obtain rfl := Tree.map.inj hentries
      obtain rfl := Option.some.inj hschema
      simp only [List.mem_cons, List.not_mem_nil, or_false] at he
      rcases he with rfl | rfl
      · exact absurd (List.mem_singleton_self _) hname
      · exact accepts_kind (.integer (.int 3) ⟨3, rfl⟩)
    all_goals
      simp [order, Keyed.find?, listAt?, requiredNames, requiredKey, Keyed.keys, Tree.string?]
  exact ⟨haccepts, inhabits_lower_of_accepts _ _ _ haccepts⟩

end EventSchema.TypeScript
