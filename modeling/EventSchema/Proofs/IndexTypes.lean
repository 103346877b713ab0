import EventSchema.Proofs.NormalTypes

/-!
# Index types

The type under the other keys of an object is about the declared keys as well, so the types of the
declared properties have to fit it, and so has a property that is not there.

* `TypeExpr.unionMembers` — the types that a union stands for;
* `TypeExpr.Covers` — a type that the declared properties fit;
* `mem_unionMembers_unionOf` — a union of normal types loses no member, unless it is `unknown`;
* `covers_indexType` — so an index type covers the properties that it was made for;
* `TypeExpr.Within`, `exists_of_within_unionOf`, `exists_of_within_intersectionOf` — the types
  within a type; putting types together makes no new objects;
* `index_covers_properties` — so in the type of every schema each object with an index is covered by
  that.
-/

namespace EventSchema.TypeScript

open TypeExpr

/-- The types that a type is a union of: its members, or itself alone. `never` is one of none. -/
def TypeExpr.unionMembers : TypeExpr → List TypeExpr
  | union members => members
  | t => if t = never then [] else [t]

/-- A type that all declared properties can be assigned to. -/
inductive TypeExpr.Covers (index : TypeExpr) (properties : List (Member × TypeExpr)) : Prop
  /-- all values are -/
  | all (h : index = unknown)
  /-- all their members are members of it, and so is the value of a property that is not there, if
  one of them may be left out -/
  | members (hmembers : ∀ p ∈ properties, ∀ t ∈ p.2.unionMembers, t ∈ index.unionMembers)
      (hundefined : (∃ p ∈ properties, p.1.optional = true) → undefined ∈ index.unionMembers)

/-- A type is another one, or stands somewhere in it. -/
inductive TypeExpr.Within (t : TypeExpr) : TypeExpr → Prop
  | self : Within t t
  | item {u : TypeExpr} (h : Within t u) : Within t (.array u)
  | property {p : Member × TypeExpr} {properties : List (Member × TypeExpr)}
      {index : Option TypeExpr} (hp : p ∈ properties) (h : Within t p.2) :
      Within t (.object properties index)
  | index {u : TypeExpr} {properties : List (Member × TypeExpr)} (h : Within t u) :
      Within t (.object properties (some u))
  | alternative {u : TypeExpr} {members : List TypeExpr} (hu : u ∈ members) (h : Within t u) :
      Within t (.union members)
  | conjunct {u : TypeExpr} {members : List TypeExpr} (hu : u ∈ members) (h : Within t u) :
      Within t (.intersection members)

variable {s t extra index : TypeExpr} {members : List TypeExpr}
  {properties : List (Member × TypeExpr)}

/-! ## Unions keep their members -/

/-- What is no union is its only member. -/
theorem unionMembers_of_not_isUnion (h : t.isUnion = false) :
    t.unionMembers = if t = never then [] else [t] := by
  cases t with
  | union => cases h
  | _ => rfl

/-- The members of a normal type are its alternatives, apart from `never`. -/
theorem mem_unionMembers_iff (h : t.IsNormal) :
    s ∈ t.unionMembers ↔ s ∈ alternatives t ∧ s ≠ never := by
  cases ht : t.isUnion with
  | true =>
    cases h with
    | union _ _ _ hplain => exact ⟨fun hs => ⟨hs, (hplain s hs).2.2⟩, fun hs => hs.1⟩
    | _ => cases ht
  | false =>
    rw [unionMembers_of_not_isUnion ht, alternatives_of_not_isUnion ht]
    by_cases hnever : t = never
    · simp [hnever]
    · rw [if_neg hnever, List.mem_singleton]
      exact ⟨fun hs => ⟨hs, hs ▸ hnever⟩, And.left⟩

/-- Types that are no unions are the members of all of them together. -/
theorem unionMembers_collapse (h : ∀ t ∈ members, t.isUnion = false ∧ t ≠ never) :
    (collapse never union members).unionMembers = members := by
  match members, h with
  | [], _ => rfl
  | [t], h =>
    obtain ⟨hunion, hnever⟩ := h t List.mem_cons_self
    rw [collapse, unionMembers_of_not_isUnion hunion, if_neg hnever]
  | _ :: _ :: _, _ => rfl

/-- A union of normal types loses none of their members, unless it is `unknown`. -/
theorem mem_unionMembers_unionOf (hmembers : ∀ t ∈ members, t.IsNormal)
    (hunknown : unionOf members ≠ unknown) (ht : t ∈ members) (hs : s ∈ t.unionMembers) :
    s ∈ (unionOf members).unionMembers := by
  obtain ⟨hs, hnever⟩ := (mem_unionMembers_iff (hmembers t ht)).1 hs
  have hflat : s ∈ distinct (members.flatMap alternatives) :=
    mem_distinct.2 (List.mem_flatMap.2 ⟨t, ht, hs⟩)
  dsimp only [unionOf] at hunknown ⊢
  split at hunknown
  · exact absurd rfl hunknown
  · next habsorbs =>
    rw [if_neg habsorbs, unionMembers_collapse]
    · exact List.mem_filter.2 ⟨hflat, by simpa using hnever⟩
    · intro a ha
      obtain ⟨ha, hnever⟩ := List.mem_filter.1 ha
      obtain ⟨u, hu, ha⟩ := List.mem_flatMap.1 (mem_distinct.1 ha)
      exact ⟨(isNormal_alternatives (hmembers u hu) a ha).2, by simpa using hnever⟩

/-- An index type covers the properties that it is made for. -/
theorem covers_indexType (hextra : extra.IsNormal) (hproperties : ∀ p ∈ properties, p.2.IsNormal) :
    (Parts.indexType extra properties).Covers properties := by
  by_cases hunknown : Parts.indexType extra properties = unknown
  · exact .all hunknown
  · have hindexed := forall_indexed hextra hproperties (.named (by decide))
    refine .members (fun p hp t ht => ?_) fun ⟨p, hp, hoptional⟩ => ?_
    · refine mem_unionMembers_unionOf hindexed hunknown ?_ ht
      exact List.mem_append_left _ (List.mem_cons_of_mem _ (List.mem_map_of_mem hp))
    · have hany : properties.any (·.1.optional) = true := List.any_eq_true.2 ⟨p, hp, hoptional⟩
      refine mem_unionMembers_unionOf hindexed hunknown (t := undefined) ?_ List.mem_cons_self
      rw [if_pos hany]
      exact List.mem_append_right _ List.mem_cons_self

/-! ## Objects within types -/

/-- What stands in one of several types put together stands in one of them. -/
theorem exists_of_within_collapse {empty : TypeExpr} {several : List TypeExpr → TypeExpr}
    (hempty : ¬ s.Within empty)
    (hseveral : ∀ ts, s.Within (several ts) → ∃ t ∈ ts, s.Within t)
    (h : s.Within (collapse empty several members)) : ∃ t ∈ members, s.Within t := by
  match members, h with
  | [], h => exact absurd h hempty
  | [t], h => exact ⟨t, List.mem_cons_self, h⟩
  | _ :: _ :: _, h => exact hseveral _ h

/-- What stands in an alternative of a type stands in the type. -/
theorem TypeExpr.Within.of_alternatives {a : TypeExpr} (h : s.Within a) (ha : a ∈ alternatives t) :
    s.Within t := by
  cases t with
  | union members => exact .alternative ha h
  | _ => exact List.mem_singleton.1 ha ▸ h

/-- What stands in a conjunct of a type stands in the type. -/
theorem TypeExpr.Within.of_conjuncts {a : TypeExpr} (h : s.Within a) (ha : a ∈ conjuncts t) :
    s.Within t := by
  cases ht : t.isIntersection with
  | true =>
    cases t with
    | intersection members => exact .conjunct ha h
    | _ => cases ht
  | false =>
    rw [conjuncts_of_not_isIntersection ht] at ha
    split at ha
    · cases ha
    · exact List.mem_singleton.1 ha ▸ h

/-- An object in a union of types stands in one of the types. -/
theorem exists_of_within_unionOf {index : Option TypeExpr}
    (h : (TypeExpr.object properties index).Within (unionOf members)) :
    ∃ t ∈ members, (TypeExpr.object properties index).Within t := by
  dsimp only [unionOf] at h
  split at h
  · cases h
  · have hseveral : ∀ ts, (TypeExpr.object properties index).Within (union ts) →
        ∃ t ∈ ts, (TypeExpr.object properties index).Within t := by
      intro ts h
      cases h with
      | alternative hu h => exact ⟨_, hu, h⟩
    obtain ⟨a, ha, h⟩ := exists_of_within_collapse (fun h => by cases h) hseveral h
    obtain ⟨t, ht, ha⟩ := List.mem_flatMap.1 (mem_distinct.1 (List.mem_filter.1 ha).1)
    exact ⟨t, ht, h.of_alternatives ha⟩

/-- An object in an intersection of types stands in one of the types. -/
theorem exists_of_within_intersectionOf {index : Option TypeExpr}
    (h : (TypeExpr.object properties index).Within (intersectionOf members)) :
    ∃ t ∈ members, (TypeExpr.object properties index).Within t := by
  have hseveral : ∀ ts, (TypeExpr.object properties index).Within (intersection ts) →
      ∃ t ∈ ts, (TypeExpr.object properties index).Within t := by
    intro ts h
    cases h with
    | conjunct hu h => exact ⟨_, hu, h⟩
  obtain ⟨a, ha, h⟩ := exists_of_within_collapse (fun h => by cases h) hseveral h
  obtain ⟨t, ht, ha⟩ := List.mem_flatMap.1 ha
  exact ⟨t, ht, h.of_conjuncts ha⟩

/-! ## Schemas -/

/-- Every object with an index, in a type that is put together by the rules of lowering, is covered
by its index. -/
theorem TypeExpr.IsLowered.covers (h : t.IsLowered)
    (hwithin : (TypeExpr.object properties (some index)).Within t) : index.Covers properties := by
  induction h with
  | named => cases hwithin
  | value value => cases value <;> cases hwithin
  | array _ ih =>
    cases hwithin with
    | item hwithin => exact ih hwithin
  | closed _ ih =>
    cases hwithin with
    | property hp hwithin => exact ih _ hp hwithin
  | free _ ih =>
    cases hwithin with
    | self => exact .all rfl
    | property hp hwithin => exact ih _ hp hwithin
    | index hwithin => cases hwithin
  | @indexed declared extra hproperties hextra ih ihextra =>
    cases hwithin with
    | self => exact covers_indexType hextra.isNormal fun p hp => (hproperties p hp).isNormal
    | property hp hwithin => exact ih _ hp hwithin
    | index hwithin =>
      -- the index is made of types that stand in the object as well, or that hold no objects
      have hindexed := forall_indexed
        (P := fun u => (TypeExpr.object properties (some index)).Within u → index.Covers properties)
        ihextra ih fun h => by cases h
      obtain ⟨u, hu, hwithin⟩ := exists_of_within_unionOf hwithin
      exact hindexed u hu hwithin
  | unionOf _ ih =>
    obtain ⟨u, hu, hwithin⟩ := exists_of_within_unionOf hwithin
    exact ih u hu hwithin
  | intersectionOf _ ih =>
    obtain ⟨u, hu, hwithin⟩ := exists_of_within_intersectionOf hwithin
    exact ih u hu hwithin

/-- Index signatures cover declared properties. In the type of every schema, every object type with
an index, at any depth, has an index that its declared properties can be assigned to: it is
`unknown`, or it has all members of their types, and `undefined` if one of them is optional. -/
theorem index_covers_properties (schema : Tree) (properties : List (Member × TypeExpr))
    (index : TypeExpr) (h : (TypeExpr.object properties (some index)).Within (lower schema)) :
    index.Covers properties :=
  (isLowered_lower schema).covers h

/-! ## Lists of tagged items -/

/-- A list of items with an identifier and maybe a tag, and with no other keys: no value is accepted
under them. -/
def taggedSchema : Tree :=
  .map [("items", .map
      [("additionalProperties", .map [("enum", .seq [])]),
        ("properties", .map [("id", .map [("type", .str "integer")]),
          ("tag", .map [("enum", .seq [.str "x", .num (.int 1)])])]),
        ("required", .seq [.str "id"])]),
    ("type", .str "array")]

/-- The properties of an item. -/
def taggedProperties : List (Member × TypeExpr) :=
  [(⟨"id", false, none⟩, .named "number"),
    (⟨"tag", true, none⟩, .union [.literal "\"x\"", .literal "1"])]

/-- The type under all keys of an item. -/
def taggedIndex : TypeExpr :=
  .union [.named "number", .literal "\"x\"", .literal "1", undefined]

/-- The index of the items covers their properties, although `never` was left out of it and the tag
has a union of its own. -/
theorem taggedIndex_covers :
    (TypeExpr.object taggedProperties (some taggedIndex)).Within (lower taggedSchema) ∧
      taggedIndex.Covers taggedProperties := by
  have hlower : lower taggedSchema =
      .array (.object taggedProperties (some taggedIndex)) := by rfl
  have hwithin : (TypeExpr.object taggedProperties (some taggedIndex)).Within
      (lower taggedSchema) := hlower ▸ .item .self
  exact ⟨hwithin, index_covers_properties _ _ _ hwithin⟩

end EventSchema.TypeScript
