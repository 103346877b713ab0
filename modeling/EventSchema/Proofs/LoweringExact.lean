import EventSchema.Proofs.LoweringSound

/-!
# Where lowering is exact

The type of a schema may have values that the schema refuses, where types cannot say what the schema
says. Of some schemas they can say everything.

* `Expressible` — schemas that have one keyword that types can say, or a shape (`GivesShape`), and
  whose schemas within are like that;
* `inhabits_literalType_iff` — a scalar has a type of its own;
* `of_inhabits_objectType`, `inhabits_typeNamed_cases`, `conforms_of_inhabits_shapeType` — a value
  of the type of a shape conforms to the schema, when all schemas within are taken for their types;
* `conforms_of_inhabits_lower` — the same for every keyword;
* `inhabits_lower_iff_accepts` — so the values of a type are the documents that its schema accepts.

That an accepted document is a value holds of all schemas (`inhabits_lower_map`).
-/

namespace EventSchema.TypeScript

open TypeExpr

variable {integer : Number → Prop} {fields entries : Fields} {v : Tree}
  {accepts : Tree → Tree → Prop}

/-! ## Schemas that types can express -/

/-- A schema has no other keywords than some. A title and a description say nothing about values. -/
def HasOnlyKeywords (keywords : List String) (fields : Fields) : Prop :=
  ∀ e ∈ fields, e.1 ∈ "title" :: "description" :: keywords

instance (keywords : List String) (fields : Fields) : Decidable (HasOnlyKeywords keywords fields) :=
  inferInstanceAs (Decidable (∀ e ∈ fields, e.1 ∈ "title" :: "description" :: keywords))

/-- A value is neither a sequence nor a map. -/
def IsScalar : Tree → Prop
  | .seq _ => False
  | .map _ => False
  | _ => True

/-- The names of kinds that types know as well. They do not tell integers from other numbers. -/
def typeKinds : List String := ["string", "number", "boolean", "null", "array", "object"]

/-- The kinds that a schema asks for have these names. -/
inductive AsksFor (fields : Fields) : List String → Prop
  | one (name : String) (h : Keyed.find? "type" fields = some (.str name)) : AsksFor fields [name]
  | several (names : List String)
    (h : Keyed.find? "type" fields = some (.seq (names.map .str))) : AsksFor fields names

/-- A schema asks for kinds that types know, and says what parts the values have. -/
structure GivesShape (fields : Fields) : Prop where
  keywords :
    HasOnlyKeywords ["type", "items", propertiesKey, requiredKey, "additionalProperties"] fields
  kinds : ∃ names, AsksFor fields names ∧ ∀ name ∈ names, name ∈ typeKinds
  /-- all elements have one schema -/
  items : ∀ schemas, Keyed.find? "items" fields ≠ some (.seq schemas)
  properties : ∀ value, Keyed.find? propertiesKey fields = some value →
    ∃ declared, value = .map declared
  /-- only declared properties are required -/
  required : ∀ value, Keyed.find? requiredKey fields = some value →
    ∃ names : List String, value = .seq (names.map .str) ∧
      ∀ name ∈ names, name ∈ Keyed.keys (declaredSchemas fields)
  /-- other keys have a schema of their own only if no property is declared: an index is about all
  keys -/
  extra : ∀ schema, Keyed.find? "additionalProperties" fields = some schema →
    (∃ allowed, schema = .bool allowed) ∨ declaredSchemas fields = []

/-- A schema has one keyword that types can say, or a shape. -/
inductive ExpressibleKeywords (fields : Fields) : Prop
  | const (value : Tree) (hkeywords : HasOnlyKeywords ["const"] fields)
    (hconst : Keyed.find? "const" fields = some value) (hvalue : IsScalar value)
  | enum (values : List Tree) (hkeywords : HasOnlyKeywords ["enum"] fields)
    (henum : listAt? "enum" fields = some values) (hvalues : ∀ value ∈ values, IsScalar value)
  | anyOf (branches : List Tree) (hkeywords : HasOnlyKeywords ["anyOf"] fields)
    (hanyOf : listAt? "anyOf" fields = some branches)
  | allOf (branches : List Tree) (hkeywords : HasOnlyKeywords ["allOf"] fields)
    (hallOf : listAt? "allOf" fields = some branches)
  | shape (hshape : GivesShape fields)

/-- A schema says only what types can say, and so do all schemas within. -/
inductive Expressible : Tree → Prop
  | bool (accepted : Bool) : Expressible (.bool accepted)
  | map (fields : Fields) (hkeywords : ExpressibleKeywords fields)
    (hwithin : ∀ schema ∈ subschemas fields, Expressible schema) : Expressible (.map fields)

/-! ## Single keywords -/

/-- A schema without other keywords than some has none but more. -/
theorem HasOnlyKeywords.mono {keywords more : List String} (h : HasOnlyKeywords keywords fields)
    (hmore : ∀ key ∈ keywords, key ∈ more) : HasOnlyKeywords more fields := by
  intro e he
  have hkey := h e he
  simp only [List.mem_cons] at hkey ⊢
  exact hkey.imp_right (Or.imp_right (hmore e.1))

/-- Nothing is found under a keyword that a schema does not have. -/
theorem HasOnlyKeywords.find?_eq_none {keywords : List String}
    (h : HasOnlyKeywords keywords fields) (key : String)
    (hkey : key ∉ "title" :: "description" :: keywords) : Keyed.find? key fields = none :=
  Keyed.find?_eq_none_iff.2 fun e he heq => hkey (heq ▸ h e he)

/-- No sequence is found there either. -/
theorem HasOnlyKeywords.listAt?_eq_none {keywords : List String}
    (h : HasOnlyKeywords keywords fields) (key : String)
    (hkey : key ∉ "title" :: "description" :: keywords) : listAt? key fields = none := by
  rw [listAt?, h.find?_eq_none key hkey]

/-- Only null is a value of the type of null. -/
theorem eq_null_of_hasName (h : HasName "null" v) : v = .null := by
  generalize hname : "null" = name at h
  cases h with
  | null => rfl
  | _ => exact absurd hname (by decide)

/-- A value of the type of a scalar is written like the scalar. -/
theorem inhabits_literalType_iff {value : Tree} (hvalue : IsScalar value) :
    Inhabits (literalType value) v ↔ v.compact = value.compact := by
  refine ⟨fun hv => ?_, inhabits_literalType⟩
  cases value with
  | null => rw [eq_null_of_hasName (inhabits_named.1 hv)]
  | seq => exact hvalue.elim
  | map => exact hvalue.elim
  | _ => simpa [literalType, Inhabits] using hv

/-- A document that meets `const`, `enum`, `anyOf` and `allOf` conforms to a schema without other
keywords. -/
theorem conforms_of_keywords
    (hkeywords : HasOnlyKeywords ["const", "enum", "anyOf", "allOf"] fields)
    (hconst : ∀ value, Keyed.find? "const" fields = some value → v.compact = value.compact)
    (henum : ∀ values, listAt? "enum" fields = some values →
      ∃ value ∈ values, v.compact = value.compact)
    (hanyOf : ∀ branches, listAt? "anyOf" fields = some branches →
      ∃ branch ∈ branches, accepts branch v)
    (hallOf : ∀ branches, listAt? "allOf" fields = some branches →
      ∀ branch ∈ branches, accepts branch v) :
    Conforms integer accepts fields v := by
  have honeOf := hkeywords.listAt?_eq_none "oneOf" (by decide)
  have htype := hkeywords.find?_eq_none "type" (by decide)
  have hitems := hkeywords.find?_eq_none "items" (by decide)
  have hproperties := hkeywords.find?_eq_none propertiesKey (by decide)
  have hrequired := hkeywords.listAt?_eq_none requiredKey (by decide)
  have hextra := hkeywords.find?_eq_none "additionalProperties" (by decide)
  constructor
  case const => exact hconst
  case enum => exact henum
  case anyOf => exact hanyOf
  case allOf => exact hallOf
  all_goals simp [HasType, Keyed.has, requiredNames, declaredSchemas, *]

/-! ## Shapes -/

/-- Required properties are declared. -/
theorem GivesShape.mem_keys_of_required (h : GivesShape fields) {name : String}
    (hname : name ∈ requiredNames fields) : name ∈ Keyed.keys (declaredSchemas fields) := by
  rw [requiredNames, listAt?] at hname
  cases hfound : Keyed.find? requiredKey fields with
  | none => simp [hfound] at hname
  | some value =>
    obtain ⟨names, rfl, hnames⟩ := h.required value hfound
    simp only [hfound, Option.getD_some, List.filterMap_map] at hname
    obtain ⟨other, hother, heq⟩ := List.mem_filterMap.1 hname
    obtain rfl : other = name := Option.some.inj heq
    exact hnames _ hother

/-- The object type of a shape has the members of the schema. If there is a schema for other keys,
the type has no index, or one whose values are values of the type of that schema. -/
theorem GivesShape.exists_index (h : GivesShape fields) :
    ∃ index, (partsOf fields).objectType fields = .object ((partsOf fields).members fields) index ∧
      ∀ schema, Keyed.find? "additionalProperties" fields = some schema →
        index = none ∨ ∃ other, index = some other ∧
          ∀ x, Inhabits other x → Inhabits (lower schema) x := by
  unfold Parts.objectType
  dsimp only
  split
  · exact ⟨none, rfl, fun _ _ => .inl rfl⟩
  · next hfound =>
    refine ⟨some unknown, rfl, fun schema hschema => .inr ⟨unknown, rfl, fun x _ => ?_⟩⟩
    rw [hfound] at hschema
    obtain rfl := Option.some.inj hschema
    exact inhabits_unknown
  · next hfound => exact ⟨some unknown, rfl, fun schema hschema => by simp [hfound] at hschema⟩
  · next extra hfalse htrue hfound =>
    refine ⟨_, rfl, fun schema hschema => .inr ⟨_, rfl, fun x hx => ?_⟩⟩
    have hempty : declaredSchemas fields = [] := by
      refine (h.extra extra hfound).resolve_left ?_
      rintro ⟨_ | _, rfl⟩
      · exact hfalse rfl
      · exact htrue rfl
    -- no declared property has widened the index
    rw [members_partsOf, hempty, Parts.indexType, inhabits_unionOf] at hx
    obtain ⟨t, ht, hx⟩ := hx
    obtain rfl := List.mem_singleton.1 ht
    simpa [partsOf, typeAt_eq, hschema] using hx

/-- What a value of the object type of a shape has: the required properties, values of their types
under the names of declared ones, and values of the type for other keys under these. -/
theorem of_inhabits_objectType (h : GivesShape fields)
    (hv : Inhabits ((partsOf fields).objectType fields) (.map entries)) :
    (∀ name ∈ requiredNames fields, name ∈ Keyed.keys entries) ∧
      (∀ d ∈ declaredSchemas fields, ∀ e ∈ entries, e.1 = d.1 → Inhabits (lower d.2) e.2) ∧
      ∀ schema, Keyed.find? "additionalProperties" fields = some schema →
        ∀ e ∈ entries, e.1 ∉ Keyed.keys (declaredSchemas fields) →
          Inhabits (lower schema) e.2 := by
  obtain ⟨index, htype, hextra⟩ := h.exists_index
  rw [htype, Inhabits, members_partsOf] at hv
  obtain ⟨_, hentries, hrequired, hdeclared, hclosed, hindex⟩ := hv
  obtain rfl := Tree.map.inj hentries
  refine ⟨fun name hname => ?_, fun d hd e he heq => ?_, fun schema hschema e he hother => ?_⟩
  · obtain ⟨d, hd, rfl⟩ := List.mem_map.1 (h.mem_keys_of_required hname)
    exact hrequired _ (List.mem_map_of_mem hd) (by simpa using hname)
  · exact hdeclared _ (List.mem_map_of_mem hd) e he heq
  · rcases hextra schema hschema with hnone | ⟨other, hsome, hother⟩
    · obtain ⟨p, hp, hname⟩ := hclosed hnone e he
      obtain ⟨d, hd, rfl⟩ := List.mem_map.1 hp
      exact absurd (hname ▸ List.mem_map_of_mem hd) hother
    · exact hother e.2 (hindex other hsome e he)

/-- The elements of a sequence have the type of the schema for them. -/
theorem GivesShape.inhabits_item (h : GivesShape fields) {schema x : Tree}
    (hschema : Keyed.find? "items" fields = some schema)
    (hx : Inhabits ((partsOf fields).items.getD unknown) x) :
    ∃ branch ∈ schema.listed, Inhabits (lower branch) x := by
  cases schema with
  | seq schemas => exact absurd hschema (h.items schemas)
  | _ => exact ⟨_, List.mem_singleton_self _, by simpa [partsOf, itemsType_eq, hschema] using hx⟩

/-- A value of the type for a kind is a value of that name, a sequence with elements of the type for
elements, or a map of the object type. -/
theorem inhabits_typeNamed_cases (h : GivesShape fields) {name : String} (hname : name ∈ typeKinds)
    (hv : Inhabits ((partsOf fields).typeNamed fields name) v) :
    HasName name v ∨
      (∃ elements, name = "array" ∧ v = .seq elements ∧
        ∀ x ∈ elements, Inhabits ((partsOf fields).items.getD unknown) x) ∨
      ∃ entries, name = "object" ∧ v = .map entries ∧
        Inhabits ((partsOf fields).objectType fields) (.map entries) := by
  simp only [typeKinds, List.mem_cons, List.not_mem_nil, or_false] at hname
  rcases hname with rfl | rfl | rfl | rfl | rfl | rfl
  · exact .inl (inhabits_named.1 hv)
  · exact .inl (inhabits_named.1 hv)
  · exact .inl (inhabits_named.1 hv)
  · exact .inl (inhabits_named.1 hv)
  · change Inhabits (.array ((partsOf fields).items.getD unknown)) v at hv
    rw [Inhabits] at hv
    obtain ⟨elements, rfl, helements⟩ := hv
    exact .inr (.inl ⟨elements, rfl, rfl, helements⟩)
  · change Inhabits ((partsOf fields).objectType fields) v at hv
    obtain ⟨index, htype, -⟩ := h.exists_index
    have hmap := hv
    rw [htype, Inhabits] at hmap
    obtain ⟨entries, rfl, -⟩ := hmap
    exact .inr (.inr ⟨entries, rfl, rfl, hv⟩)

/-- A document conforms to a shape if it is of one of the kinds, its elements have the type for
elements, and it has the object type if it is a map. -/
theorem GivesShape.conforms (h : GivesShape fields) (htype : HasType integer fields v)
    (helements : ∀ elements, v = .seq elements →
      ∀ x ∈ elements, Inhabits ((partsOf fields).items.getD unknown) x)
    (hobject : ∀ entries, v = .map entries →
      Inhabits ((partsOf fields).objectType fields) (.map entries)) :
    ConformsToTypes integer fields v where
  const value hvalue := by simp [h.keywords.find?_eq_none "const" (by decide)] at hvalue
  enum values hvalues := by simp [h.keywords.listAt?_eq_none "enum" (by decide)] at hvalues
  oneOf branches hbranches := by
    simp [h.keywords.listAt?_eq_none "oneOf" (by decide)] at hbranches
  anyOf branches hbranches := by
    simp [h.keywords.listAt?_eq_none "anyOf" (by decide)] at hbranches
  allOf branches hbranches := by
    simp [h.keywords.listAt?_eq_none "allOf" (by decide)] at hbranches
  type := htype
  required entries hentries := (of_inhabits_objectType h (hobject entries hentries)).1
  declared entries hentries := (of_inhabits_objectType h (hobject entries hentries)).2.1
  extra entries hentries := (of_inhabits_objectType h (hobject entries hentries)).2.2
  items elements hseq _ hschema x hx := h.inhabits_item hschema (helements elements hseq x hx)

/-- A value of the type for the shape of a schema is of the type for one of its kinds. -/
theorem AsksFor.exists_kind {names : List String} (h : AsksFor fields names)
    (hv : Inhabits ((partsOf fields).shapeType fields) v) :
    ∃ name ∈ names, Inhabits ((partsOf fields).typeNamed fields name) v := by
  rw [Parts.shapeType] at hv
  cases h with
  | one name hfound =>
    simp only [hfound] at hv
    exact ⟨name, List.mem_singleton_self name, hv⟩
  | several names hfound =>
    simp only [hfound, List.map_map, inhabits_unionOf] at hv
    obtain ⟨t, ht, hv⟩ := hv
    obtain ⟨name, hname, rfl⟩ := List.mem_map.1 ht
    exact ⟨name, hname, hv⟩

/-- A document of one of the kinds has the type that the schema asks for. -/
theorem AsksFor.hasType {names : List String} (h : AsksFor fields names) {name : String}
    (hname : name ∈ names) (hkind : IsOfKind integer name v) : HasType integer fields v := by
  rw [HasType]
  cases h with
  | one other hfound =>
    obtain rfl := List.mem_singleton.1 hname
    simpa only [hfound] using hkind
  | several names hfound =>
    simp only [hfound]
    refine ⟨.str name, List.mem_map_of_mem hname, fun other heq => ?_⟩
    exact Tree.str.inj heq ▸ hkind

/-- A value of a type that only has a name is of the kind of that name, and has no parts. -/
theorem isOfKind_of_hasName {name : String} (hname : name ∈ typeKinds) (h : HasName name v) :
    IsOfKind integer name v ∧ (∀ elements, v ≠ .seq elements) ∧ ∀ entries, v ≠ .map entries := by
  cases h with
  | unknown => exact absurd hname (by decide)
  | null => exact ⟨.null, nofun, nofun⟩
  | boolean value => exact ⟨.boolean value, nofun, nofun⟩
  | number value => exact ⟨.number value, nofun, nofun⟩
  | string value => exact ⟨.string value, nofun, nofun⟩

/-- A value of the type for a shape conforms to it. -/
theorem conforms_of_inhabits_shapeType (h : GivesShape fields)
    (hv : Inhabits ((partsOf fields).shapeType fields) v) : ConformsToTypes integer fields v := by
  obtain ⟨names, hasks, hnames⟩ := h.kinds
  obtain ⟨name, hname, hv⟩ := hasks.exists_kind hv
  rcases inhabits_typeNamed_cases h (hnames name hname) hv with
    hnamed | ⟨elements, rfl, rfl, helements⟩ | ⟨entries, rfl, rfl, hobject⟩
  · obtain ⟨hkind, hseq, hmap⟩ := isOfKind_of_hasName (hnames name hname) hnamed
    exact h.conforms (hasks.hasType hname hkind) (fun elements heq => absurd heq (hseq elements))
      fun entries heq => absurd heq (hmap entries)
  · refine h.conforms (hasks.hasType hname (.array elements)) (fun _ heq => ?_) nofun
    exact Tree.seq.inj heq ▸ helements
  · refine h.conforms (hasks.hasType hname (.object entries)) nofun fun _ heq => ?_
    exact Tree.map.inj heq ▸ hobject

/-! ## Schemas -/

/-- A value of the type of a schema conforms to the schema, when all schemas within are taken for
their types, if it has only keywords that types can say. -/
theorem conforms_of_inhabits_lower (h : ExpressibleKeywords fields)
    (hv : Inhabits (lower (.map fields)) v) : ConformsToTypes integer fields v := by
  have hparts : (partsOf fields).oneOf = (listAt? "oneOf" fields).map (·.map lower) ∧
      (partsOf fields).anyOf = (listAt? "anyOf" fields).map (·.map lower) ∧
      (partsOf fields).allOf = (listAt? "allOf" fields).map (·.map lower) :=
    ⟨branchesAt_eq _ _, branchesAt_eq _ _, branchesAt_eq _ _⟩
  rw [lower_map, Parts.type, hparts.1, hparts.2.1, hparts.2.2] at hv
  -- the rules read the first keyword that they find, and here there is no other one
  cases h with
  | const value hkeywords hconst hvalue =>
    simp only [hconst, inhabits_literalType_iff hvalue] at hv
    apply conforms_of_keywords (hkeywords.mono (by simp))
    case hconst =>
      intro other hother
      obtain rfl := Option.some.inj (hconst.symm.trans hother)
      exact hv
    all_goals simp [hkeywords.listAt?_eq_none]
  | enum values hkeywords henum hvalues =>
    simp only [hkeywords.find?_eq_none "const" (by decide), henum, inhabits_unionOf] at hv
    apply conforms_of_keywords (hkeywords.mono (by simp))
    case henum =>
      intro others hothers
      obtain rfl := Option.some.inj (henum.symm.trans hothers)
      obtain ⟨t, ht, hv⟩ := hv
      obtain ⟨value, hvalue, rfl⟩ := List.mem_map.1 ht
      exact ⟨value, hvalue, (inhabits_literalType_iff (hvalues value hvalue)).1 hv⟩
    all_goals simp [hkeywords.find?_eq_none, hkeywords.listAt?_eq_none]
  | anyOf branches hkeywords hanyOf =>
    simp only [hkeywords.find?_eq_none "const" (by decide),
      hkeywords.listAt?_eq_none "enum" (by decide), hkeywords.listAt?_eq_none "oneOf" (by decide),
      hanyOf, Option.map_none, Option.map_some, inhabits_unionOf] at hv
    apply conforms_of_keywords (hkeywords.mono (by simp))
    case hanyOf =>
      intro others hothers
      obtain rfl := Option.some.inj (hanyOf.symm.trans hothers)
      obtain ⟨t, ht, hv⟩ := hv
      obtain ⟨branch, hbranch, rfl⟩ := List.mem_map.1 ht
      exact ⟨branch, hbranch, hv⟩
    all_goals simp [hkeywords.find?_eq_none, hkeywords.listAt?_eq_none]
  | allOf branches hkeywords hallOf =>
    simp only [hkeywords.find?_eq_none "const" (by decide),
      hkeywords.listAt?_eq_none "enum" (by decide), hkeywords.listAt?_eq_none "oneOf" (by decide),
      hkeywords.listAt?_eq_none "anyOf" (by decide), hallOf, Option.map_none, Option.map_some,
      inhabits_intersectionOf] at hv
    apply conforms_of_keywords (hkeywords.mono (by simp))
    case hallOf =>
      intro others hothers branch hbranch
      obtain rfl := Option.some.inj (hallOf.symm.trans hothers)
      exact hv _ (List.mem_map_of_mem hbranch)
    all_goals simp [hkeywords.find?_eq_none, hkeywords.listAt?_eq_none]
  | shape hshape =>
    have hkeywords := hshape.keywords
    simp only [hkeywords.find?_eq_none "const" (by decide),
      hkeywords.listAt?_eq_none "enum" (by decide), hkeywords.listAt?_eq_none "oneOf" (by decide),
      hkeywords.listAt?_eq_none "anyOf" (by decide), hkeywords.listAt?_eq_none "allOf" (by decide),
      Option.map_none] at hv
    exact conforms_of_inhabits_shapeType hshape hv

/-- Where schemas say only what types can say, lowering is exact: whatever counts as an integer, the
values of the type of a schema are the documents that the schema accepts. -/
theorem inhabits_lower_iff_accepts (integer : Number → Prop) (schema v : Tree)
    (h : Expressible schema) : Inhabits (lower schema) v ↔ Accepts integer schema v := by
  induction h generalizing v with
  | bool accepted =>
    rw [accepts_bool]
    cases accepted with
    | true => exact ⟨fun _ => rfl, fun _ => inhabits_unknown⟩
    | false => exact ⟨fun hv => absurd hv not_inhabits_never, nofun⟩
  | map fields hkeywords _ ih =>
    rw [accepts_map]
    constructor
    · intro hv
      exact (conforms_of_inhabits_lower hkeywords hv).imp fun schema hschema x =>
        (ih schema hschema x).1
    · intro hv
      exact inhabits_lower_map (hv.imp fun schema hschema x => (ih schema hschema x).2)

/-- A basket is null, or has a size that is 1, all or null, and nothing else. -/
def basketSchema : Tree :=
  .map [("additionalProperties", .bool false),
    ("properties", .map [("size", .map [("anyOf", .seq [.map [("const", .num (.int 1))],
      .map [("enum", .seq [.str "all", .null])]])])]),
    ("required", .seq [.str "size"]),
    ("title", .str "Basket"),
    ("type", .seq [.str "null", .str "object"])]

/-- The type of baskets. -/
def basketType : TypeExpr :=
  .union [null, .object [(⟨"size", false, none⟩,
    .union [.literal "1", .literal "\"all\"", null])] none]

/-- A basket. -/
def basket : Tree := .map [("size", .str "all")]

/-- What has a key that is not declared, and is no basket. -/
def crate : Tree := .map [("more", .bool true), ("size", .str "all")]

example : lower basketSchema = basketType := by
  rfl

/-- Types can express what a basket is. -/
theorem expressible_basketSchema : Expressible basketSchema := by
  have hone : Expressible (.map [("const", .num (.int 1))]) :=
    .map _ (.const _ (by decide) rfl trivial) (List.forall_mem_nil _)
  have hwords : Expressible (.map [("enum", .seq [.str "all", .null])]) := by
    refine .map _ (.enum _ (by decide) rfl fun value hvalue => ?_) (List.forall_mem_nil _)
    simp only [List.mem_cons, List.not_mem_nil, or_false] at hvalue
    rcases hvalue with rfl | rfl <;> trivial
  have hsize : Expressible (.map [("anyOf", .seq [.map [("const", .num (.int 1))],
      .map [("enum", .seq [.str "all", .null])]])]) :=
    .map _ (.anyOf _ (by decide) rfl)
      (List.forall_mem_cons.2 ⟨hone, List.forall_mem_cons.2 ⟨hwords, List.forall_mem_nil _⟩⟩)
  refine .map _ (.shape ?_) (List.forall_mem_cons.2
    ⟨hsize, List.forall_mem_cons.2 ⟨.bool false, List.forall_mem_nil _⟩⟩)
  exact {
    keywords := by decide
    kinds := ⟨["null", "object"], .several _ rfl, by decide⟩
    items := fun schemas h => by simp [Keyed.find?] at h
    properties := fun value h => ⟨_, (Option.some.inj h).symm⟩
    required := fun value h => ⟨["size"], (Option.some.inj h).symm, by decide⟩
    extra := fun schema h => .inl ⟨false, (Option.some.inj h).symm⟩ }

/-- The schema accepts a basket, which has its type, and refuses a crate, which has not. -/
theorem accepts_basketSchema :
    Expressible basketSchema ∧
      Accepts (fun n => ∃ i, n = .int i) basketSchema basket ∧
      ¬ Accepts (fun n => ∃ i, n = .int i) basketSchema crate := by
  have hbasket : Inhabits (lower basketSchema) basket := by
    change Inhabits basketType basket
    have htext : Tree.compact (.str "all") = "\"all\"" := by decide
    simp [basketType, basket, Inhabits, htext, Keyed.keys]
  have hcrate : ¬ Inhabits (lower basketSchema) crate := by
    intro hv
    change Inhabits basketType crate at hv
    obtain ⟨t, ht, hv⟩ := inhabits_union.1 hv
    simp only [List.mem_cons, List.not_mem_nil, or_false] at ht
    rcases ht with rfl | rfl
    · cases eq_null_of_hasName (inhabits_named.1 hv)
    · rw [Inhabits] at hv
      obtain ⟨entries, hentries, -, -, hclosed, -⟩ := hv
      obtain rfl := Tree.map.inj hentries
      obtain ⟨p, hp, hname⟩ := hclosed rfl ("more", .bool true) (by simp)
      obtain rfl := List.mem_singleton.1 hp
      exact absurd hname (by decide)
  refine ⟨expressible_basketSchema, ?_, fun haccepts => hcrate ?_⟩
  · exact (inhabits_lower_iff_accepts _ _ _ expressible_basketSchema).1 hbasket
  · exact (inhabits_lower_iff_accepts _ _ _ expressible_basketSchema).2 haccepts

end EventSchema.TypeScript
