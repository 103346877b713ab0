import EventSchema.Proofs.LoweringSound

/-!
# The types of schemas

Which types schemas can have. What holds of the types that values and names stand for, and is kept
where types are put together, holds of the type of every schema.

* `TypeExpr.IsLowered` — the types that can be put together by the rules of lowering;
* `Parts.IsLowered`, `isLowered_type` — the rules for keywords make such types of such types;
* `isLowered_lower` — so the type of every schema is one of them.
-/

namespace EventSchema.TypeScript

open TypeExpr

/-- The names of types. -/
def typeNames : List String :=
  ["string", "number", "boolean", "null", "undefined", "unknown", "never"]

/-- The types that schemas can have. -/
inductive TypeExpr.IsLowered : TypeExpr → Prop
  | named {name : String} (hname : name ∈ typeNames) : IsLowered (named name)
  | value (value : Tree) : IsLowered (literalType value)
  | array {item : TypeExpr} (hitem : IsLowered item) : IsLowered (.array item)
  /-- objects with the declared keys only -/
  | closed {properties : List (Member × TypeExpr)}
      (hproperties : ∀ p ∈ properties, IsLowered p.2) : IsLowered (.object properties none)
  /-- objects with any values under other keys -/
  | free {properties : List (Member × TypeExpr)}
      (hproperties : ∀ p ∈ properties, IsLowered p.2) :
      IsLowered (.object properties (some unknown))
  /-- objects with values of some type under other keys -/
  | indexed {properties : List (Member × TypeExpr)} {extra : TypeExpr}
      (hproperties : ∀ p ∈ properties, IsLowered p.2) (hextra : IsLowered extra) :
      IsLowered (.object properties (some (Parts.indexType extra properties)))
  | unionOf {members : List TypeExpr} (hmembers : ∀ t ∈ members, IsLowered t) :
      IsLowered (TypeExpr.unionOf members)
  | intersectionOf {members : List TypeExpr} (hmembers : ∀ t ∈ members, IsLowered t) :
      IsLowered (TypeExpr.intersectionOf members)

variable {parts : Parts} {fields : Fields}

/-! ## The rules for keywords -/

/-- The type of all values can be the type of a schema. -/
theorem isLowered_unknown : unknown.IsLowered := .named (by decide)

/-- The types of the schemas within a schema. -/
structure Parts.IsLowered (parts : Parts) : Prop where
  oneOf : ∀ branches, parts.oneOf = some branches → ∀ t ∈ branches, t.IsLowered
  anyOf : ∀ branches, parts.anyOf = some branches → ∀ t ∈ branches, t.IsLowered
  allOf : ∀ branches, parts.allOf = some branches → ∀ t ∈ branches, t.IsLowered
  items : ∀ t, parts.items = some t → t.IsLowered
  properties : ∀ d ∈ parts.properties, d.type.IsLowered
  extra : ∀ t, parts.extra = some t → t.IsLowered

/-- A type that is missing is that of all values. -/
theorem isLowered_getD {type? : Option TypeExpr} (h : ∀ t, type? = some t → t.IsLowered) :
    (type?.getD unknown).IsLowered := by
  cases type? with
  | none => exact isLowered_unknown
  | some t => exact h t rfl

/-- The type of objects. -/
theorem isLowered_objectType (h : parts.IsLowered) : (parts.objectType fields).IsLowered := by
  have hmembers : ∀ p ∈ parts.members fields, p.2.IsLowered := by
    intro p hp
    obtain ⟨d, hd, rfl⟩ := List.mem_map.1 hp
    exact h.properties d hd
  unfold Parts.objectType
  dsimp only
  split
  · exact .closed hmembers
  · exact .free hmembers
  · exact .free hmembers
  · exact .indexed hmembers (isLowered_getD h.extra)

/-- The type for a name. -/
theorem isLowered_typeNamed (h : parts.IsLowered) (name : String) :
    (parts.typeNamed fields name).IsLowered := by
  by_cases hname : name ∈ kindNames
  · simp only [kindNames, List.mem_cons, List.not_mem_nil, or_false] at hname
    rcases hname with rfl | rfl | rfl | rfl | rfl | rfl | rfl
    · exact .named (by decide)
    · exact .named (by decide)
    · exact .named (by decide)
    · exact .named (by decide)
    · exact .named (by decide)
    · exact .array (isLowered_getD h.items)
    · exact isLowered_objectType h
  · rw [typeNamed_of_not_mem parts hname]
    exact isLowered_unknown

/-- The type for the shape of a schema. -/
theorem isLowered_shapeType (h : parts.IsLowered) : (parts.shapeType fields).IsLowered := by
  rw [Parts.shapeType]
  split
  · exact isLowered_typeNamed h _
  · apply IsLowered.unionOf
    intro t ht
    obtain ⟨entry, -, rfl⟩ := List.mem_map.1 ht
    cases entry with
    | str name => exact isLowered_typeNamed h name
    | _ => exact isLowered_unknown
  · split
    · exact isLowered_objectType h
    · split
      · exact isLowered_typeNamed h _
      · exact isLowered_unknown

/-- The type that the rules for keywords give. -/
theorem isLowered_type (h : parts.IsLowered) : (parts.type fields).IsLowered := by
  rw [Parts.type]
  split
  · exact .value _
  · apply IsLowered.unionOf
    intro t ht
    obtain ⟨value, -, rfl⟩ := List.mem_map.1 ht
    exact .value value
  · next hbranches => exact .unionOf (h.oneOf _ hbranches)
  · next hbranches => exact .unionOf (h.anyOf _ hbranches)
  · next hbranches => exact .intersectionOf (h.allOf _ hbranches)
  · exact isLowered_shapeType h

/-! ## Schemas -/

/-- The types of the schemas within a schema, if all smaller schemas have types that can be put
together. -/
theorem isLowered_partsOf
    (h : ∀ schema, sizeOf schema < sizeOf (Tree.map fields) → (lower schema).IsLowered) :
    (partsOf fields).IsLowered := by
  have hbranches : ∀ key branches, branchesAt key fields = some branches →
      ∀ t ∈ branches, t.IsLowered := by
    intro key branches hfound t ht
    obtain ⟨schemas, hschemas, rfl⟩ := branches_of_branchesAt hfound
    obtain ⟨schema, hschema, rfl⟩ := List.mem_map.1 ht
    exact h schema (sizeOf_lt_of_listAt? hschemas hschema)
  refine ⟨hbranches _, hbranches _, hbranches _, fun t ht => ?_, fun d hd => ?_, fun t ht => ?_⟩
  · rw [partsOf, itemsType_eq] at ht
    obtain ⟨schema, hfound, rfl⟩ := Option.map_eq_some_iff.1 ht
    have hlisted := fun within => sizeOf_lt_of_listed (t := within) hfound
    cases schema with
    | seq schemas =>
      apply IsLowered.unionOf
      intro t ht
      obtain ⟨schema, hschema, rfl⟩ := List.mem_map.1 ht
      exact h schema (hlisted schema hschema)
    | _ => exact h _ (sizeOf_lt_of_find? hfound)
  · rw [partsOf, declaredIn_eq] at hd
    obtain ⟨property, hproperty, rfl⟩ := List.mem_map.1 hd
    exact h property.2 (sizeOf_lt_of_declared hproperty)
  · rw [partsOf, typeAt_eq] at ht
    obtain ⟨schema, hfound, rfl⟩ := Option.map_eq_some_iff.1 ht
    exact h schema (sizeOf_lt_of_find? hfound)

/-- The type of every schema is put together by the rules of lowering. -/
theorem isLowered_lower (schema : Tree) : (lower schema).IsLowered := by
  induction hsize : sizeOf schema using Nat.strongRecOn generalizing schema with
  | ind size ih =>
    cases schema with
    | map fields =>
      rw [lower_map]
      exact isLowered_type (isLowered_partsOf fun within hlt => ih _ (hsize ▸ hlt) within rfl)
    | bool accepted =>
      cases accepted with
      | true => exact isLowered_unknown
      | false => exact .named (by decide)
    | _ => exact isLowered_unknown

end EventSchema.TypeScript
