import EventSchema.Proofs.Entries
import EventSchema.TypeScript.Lowering

/-!
# The values that schemas accept

Which documents a schema accepts, where all its keywords have to be met at once.

* `IsOfKind`, `HasType` — the names of kinds, and what `type` asks for; without it `properties` asks
  for a map and `items` for a sequence;
* `Conforms` — a document meets the keywords of a schema, given what the schemas within accept;
* `Accepts` — a schema accepts a document. Which numbers count as integers is left open;
* `subschemas`, `Conforms.imp` — the schemas within a schema, and that conformance asks for no
  others.

A keyword whose value is not of the form that the keyword needs says nothing.
-/

namespace EventSchema.TypeScript

/-- The names that are known to stand for a kind of documents. -/
def kindNames : List String :=
  ["string", "integer", "number", "boolean", "null", "array", "object"]

/-- A document is of the kind that a name stands for. A kind that is not known has all documents. -/
inductive IsOfKind (integer : Number → Prop) : String → Tree → Prop
  | string (value : String) : IsOfKind integer "string" (.str value)
  | integer (value : Number) (hvalue : integer value) : IsOfKind integer "integer" (.num value)
  | number (value : Number) : IsOfKind integer "number" (.num value)
  | boolean (value : Bool) : IsOfKind integer "boolean" (.bool value)
  | null : IsOfKind integer "null" .null
  | array (elements : List Tree) : IsOfKind integer "array" (.seq elements)
  | object (entries : Fields) : IsOfKind integer "object" (.map entries)
  | other (name : String) (v : Tree) (hname : name ∉ kindNames) : IsOfKind integer name v

/-- A document is of the kind, or of one of the kinds, that a schema asks for. -/
def HasType (integer : Number → Prop) (fields : Fields) (v : Tree) : Prop :=
  match Keyed.find? "type" fields with
  | some (.str name) => IsOfKind integer name v
  | some (.seq entries) => ∃ entry ∈ entries, ∀ name, entry = .str name → IsOfKind integer name v
  | _ =>
    if Keyed.has propertiesKey fields then IsOfKind integer "object" v
    else if Keyed.has "items" fields then IsOfKind integer "array" v
    else True

/-- The schemas of the properties that a schema declares. -/
def declaredSchemas (fields : Fields) : Fields :=
  match Keyed.find? propertiesKey fields with
  | some (.map declared) => declared
  | _ => []

/-- A document meets all keywords of a schema, given which schemas within accept what. -/
structure Conforms (integer : Number → Prop) (accepts : Tree → Tree → Prop) (fields : Fields)
    (v : Tree) : Prop where
  const : ∀ value, Keyed.find? "const" fields = some value → v.compact = value.compact
  enum : ∀ values, listAt? "enum" fields = some values → ∃ value ∈ values, v.compact = value.compact
  oneOf : ∀ branches, listAt? "oneOf" fields = some branches → ∃ branch ∈ branches, accepts branch v
  anyOf : ∀ branches, listAt? "anyOf" fields = some branches → ∃ branch ∈ branches, accepts branch v
  allOf : ∀ branches, listAt? "allOf" fields = some branches → ∀ branch ∈ branches, accepts branch v
  type : HasType integer fields v
  required : ∀ entries, v = .map entries →
    ∀ name ∈ requiredNames fields, name ∈ Keyed.keys entries
  declared : ∀ entries, v = .map entries →
    ∀ d ∈ declaredSchemas fields, ∀ e ∈ entries, e.1 = d.1 → accepts d.2 e.2
  /-- the schema of all other keys, which `false` forbids -/
  extra : ∀ entries, v = .map entries →
    ∀ schema, Keyed.find? "additionalProperties" fields = some schema →
      ∀ e ∈ entries, e.1 ∉ Keyed.keys (declaredSchemas fields) → accepts schema e.2
  /-- the schemas of the elements, one of which has to accept an element -/
  items : ∀ elements, v = .seq elements →
    ∀ schema, Keyed.find? "items" fields = some schema →
      ∀ x ∈ elements, ∃ branch ∈ schema.listed, accepts branch x

/-- A schema accepts a document. What is neither a map nor a boolean accepts everything. -/
def Accepts (integer : Number → Prop) : Tree → Tree → Prop
  | .bool accepted, _ => accepted = true
  | .map fields, v =>
    Conforms integer
      (fun schema x => ∃ _ : sizeOf schema < sizeOf (Tree.map fields), Accepts integer schema x)
      fields v
  | _, _ => True
termination_by schema => sizeOf schema
decreasing_by assumption

variable {integer : Number → Prop} {fields : Fields} {v t : Tree}
  {accepts accepts' : Tree → Tree → Prop}

/-! ## The schemas within a schema -/

/-- An item of a sequence under a key is smaller than the map. -/
theorem sizeOf_lt_of_listAt? {key : String} {items : List Tree}
    (h : listAt? key fields = some items) (ht : t ∈ items) :
    sizeOf t < sizeOf (Tree.map fields) := by
  have hitem := List.sizeOf_lt_of_mem ht
  rw [listAt?] at h
  split at h
  · next found hfound =>
    obtain rfl := Option.some.inj h
    have hlt := sizeOf_lt_of_find? hfound
    simp only [Tree.seq.sizeOf_spec] at hlt
    omega
  · cases h

/-- The schema of a declared property is smaller than the map. -/
theorem sizeOf_lt_of_declared {d : String × Tree} (hd : d ∈ declaredSchemas fields) :
    sizeOf d.2 < sizeOf (Tree.map fields) := by
  rw [declaredSchemas] at hd
  split at hd
  · next declared hfound =>
    have hlt := sizeOf_lt_of_find? hfound
    have hdecl := List.sizeOf_lt_of_mem hd
    obtain ⟨name, schema⟩ := d
    simp only [Tree.map.sizeOf_spec, Prod.mk.sizeOf_spec] at hlt hdecl ⊢
    omega
  · cases hd

/-- The schemas directly within a schema that is a map. -/
def subschemas (fields : Fields) : List Tree :=
  ["oneOf", "anyOf", "allOf"].flatMap (fun key => (listAt? key fields).getD []) ++
    ((declaredSchemas fields).map (·.2) ++
      ((Keyed.find? "additionalProperties" fields).toList ++
        (Keyed.find? "items" fields).toList.flatMap Tree.listed))

/-- The schemas within are the branches, the schemas of declared properties and of other keys, and
those for elements. -/
theorem mem_subschemas : t ∈ subschemas fields ↔
    (∃ key ∈ ["oneOf", "anyOf", "allOf"], ∃ branches, listAt? key fields = some branches ∧
      t ∈ branches) ∨
    (∃ d ∈ declaredSchemas fields, d.2 = t) ∨
    Keyed.find? "additionalProperties" fields = some t ∨
    ∃ items, Keyed.find? "items" fields = some items ∧ t ∈ items.listed := by
  have hbranches : ∀ key, t ∈ (listAt? key fields).getD [] ↔
      ∃ branches, listAt? key fields = some branches ∧ t ∈ branches := by
    intro key
    cases listAt? key fields <;> simp
  simp only [subschemas, List.mem_append, List.mem_flatMap, List.mem_map, Option.mem_toList,
    hbranches]

/-- A branch is a schema within. -/
theorem mem_subschemas_of_branch {key : String} {branches : List Tree}
    (hkey : key ∈ ["oneOf", "anyOf", "allOf"]) (h : listAt? key fields = some branches)
    (ht : t ∈ branches) : t ∈ subschemas fields :=
  mem_subschemas.2 (.inl ⟨key, hkey, branches, h, ht⟩)

/-- A schema within another one is smaller. -/
theorem sizeOf_lt_of_mem_subschemas (h : t ∈ subschemas fields) :
    sizeOf t < sizeOf (Tree.map fields) := by
  rcases mem_subschemas.1 h with
    ⟨key, -, branches, h, ht⟩ | ⟨d, hd, rfl⟩ | h | ⟨items, h, ht⟩
  · exact sizeOf_lt_of_listAt? h ht
  · exact sizeOf_lt_of_declared hd
  · exact sizeOf_lt_of_find? h
  · exact sizeOf_lt_of_listed h ht

/-! ## Acceptance by parts -/

/-- Where the schemas within accept more, so does the schema. -/
theorem Conforms.imp
    (h : ∀ schema ∈ subschemas fields, ∀ x, accepts schema x → accepts' schema x)
    (hv : Conforms integer accepts fields v) : Conforms integer accepts' fields v where
  const := hv.const
  enum := hv.enum
  oneOf branches hbranches := by
    obtain ⟨branch, hmem, hbranch⟩ := hv.oneOf branches hbranches
    exact ⟨branch, hmem, h branch (mem_subschemas_of_branch (by simp) hbranches hmem) v hbranch⟩
  anyOf branches hbranches := by
    obtain ⟨branch, hmem, hbranch⟩ := hv.anyOf branches hbranches
    exact ⟨branch, hmem, h branch (mem_subschemas_of_branch (by simp) hbranches hmem) v hbranch⟩
  allOf branches hbranches branch hmem :=
    h branch (mem_subschemas_of_branch (by simp) hbranches hmem) v
      (hv.allOf branches hbranches branch hmem)
  type := hv.type
  required := hv.required
  declared entries hentries d hd e he hname :=
    h d.2 (mem_subschemas.2 (.inr (.inl ⟨d, hd, rfl⟩))) e.2
      (hv.declared entries hentries d hd e he hname)
  extra entries hentries schema hschema e he hname :=
    h schema (mem_subschemas.2 (.inr (.inr (.inl hschema)))) e.2
      (hv.extra entries hentries schema hschema e he hname)
  items elements helements schema hschema x hx := by
    obtain ⟨branch, hmem, hbranch⟩ := hv.items elements helements schema hschema x hx
    exact ⟨branch, hmem,
      h branch (mem_subschemas.2 (.inr (.inr (.inr ⟨schema, hschema, hmem⟩)))) x hbranch⟩

/-- The same where all smaller schemas accept more. -/
theorem Conforms.mono
    (h : ∀ schema, sizeOf schema < sizeOf (Tree.map fields) → ∀ x, accepts schema x →
      accepts' schema x)
    (hv : Conforms integer accepts fields v) : Conforms integer accepts' fields v :=
  hv.imp fun schema hschema => h schema (sizeOf_lt_of_mem_subschemas hschema)

/-- A schema that is a map accepts what meets all its keywords. -/
theorem accepts_map :
    Accepts integer (.map fields) v ↔ Conforms integer (Accepts integer) fields v := by
  rw [Accepts]
  constructor
  · exact Conforms.mono fun _ _ _ ⟨_, h⟩ => h
  · exact Conforms.mono fun _ hlt _ h => ⟨hlt, h⟩

/-- A boolean schema accepts everything or nothing. -/
theorem accepts_bool {accepted : Bool} : Accepts integer (.bool accepted) v ↔ accepted = true := by
  rw [Accepts]

end EventSchema.TypeScript
