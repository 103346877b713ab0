import EventSchema.Proofs.IndexTypes

/-!
# Unions and intersections within types

A normal type is normal in all its parts, so nothing could be left out of a union or an intersection
anywhere in the type of a schema, and putting the members together once more gives the same type.

* `TypeExpr.IsNormal.of_within` — what stands in a normal type is normal;
* `unionOf_of_isNormal`, `intersectionOf_of_isNormal` — normal unions and intersections are what
  their members make together;
* `lower_within_normal` — all unions and intersections in the type of a schema.
-/

namespace EventSchema.TypeScript

open TypeExpr

variable {t u : TypeExpr} {members : List TypeExpr}

/-! ## Parts of normal types -/

/-- What stands in a normal type is normal. -/
theorem TypeExpr.IsNormal.of_within (h : u.IsNormal) (hwithin : t.Within u) : t.IsNormal := by
  induction hwithin with
  | self => exact h
  | item _ ih =>
    cases h with
    | array hitem => exact ih hitem
  | property hp _ ih =>
    cases h with
    | object hproperties _ => exact ih (hproperties _ hp)
  | index _ ih =>
    cases h with
    | object _ hindex => exact ih (hindex _ rfl)
  | alternative hu _ ih =>
    cases h with
    | union hmembers _ _ _ => exact ih (hmembers _ hu)
  | conjunct hu _ ih =>
    cases h with
    | intersection hmembers _ _ => exact ih (hmembers _ hu)

/-! ## Members put together again -/

/-- Several types stay together. -/
theorem collapse_of_two_le {empty : TypeExpr} {several : List TypeExpr → TypeExpr}
    (h : 2 ≤ members.length) : collapse empty several members = several members := by
  match members, h with
  | _ :: _ :: _, _ => rfl

/-- Of different types none is dropped. -/
theorem distinct_of_nodup (h : members.Nodup) : distinct members = members := by
  induction members with
  | nil => rfl
  | cons t ts ih =>
    obtain ⟨ht, hts⟩ := List.nodup_cons.1 h
    rw [distinct, ih hts, List.filter_eq_self.2]
    intro s hs
    have hne : s ≠ t := by
      rintro rfl
      exact ht hs
    simpa using hne

/-- A normal union is the union of its members. -/
theorem unionOf_of_isNormal (h : (TypeExpr.union members).IsNormal) :
    unionOf members = .union members := by
  cases h with
  | union _ hlong hdistinct hplain =>
    have hflat : members.flatMap alternatives = members := by
      calc members.flatMap alternatives
          = members.flatMap fun t => [t] :=
            List.flatMap_congr fun t ht => alternatives_of_not_isUnion (hplain t ht).1
        _ = members := List.flatMap_singleton' members
    have hunknown : unknown ∉ members := by
      intro hin
      exact (hplain unknown hin).2.1 rfl
    have hkept : members.filter (· ≠ never) = members := by
      apply List.filter_eq_self.2
      intro t ht
      simpa using (hplain t ht).2.2
    dsimp only [unionOf]
    rw [hflat, distinct_of_nodup hdistinct, if_neg hunknown, hkept, collapse_of_two_le hlong]

/-- A normal intersection is the intersection of its members. -/
theorem intersectionOf_of_isNormal (h : (TypeExpr.intersection members).IsNormal) :
    intersectionOf members = .intersection members := by
  cases h with
  | intersection _ hlong hplain =>
    have hflat : members.flatMap conjuncts = members := by
      calc members.flatMap conjuncts
          = members.flatMap fun t => [t] := by
            refine List.flatMap_congr fun t ht => ?_
            rw [conjuncts_of_not_isIntersection (hplain t ht).1, if_neg (hplain t ht).2]
        _ = members := List.flatMap_singleton' members
    rw [intersectionOf, hflat, collapse_of_two_le hlong]

/-! ## Schemas -/

/-- The type of every schema is in normal form. At every depth of it,
* a union has at least two members, no two of which are the same, and none of which is a union,
  `unknown` or `never`;
* an intersection has at least two members, none of which is an intersection or `unknown`.

Both are what their members make together, so nothing is left to be flattened or dropped. -/
theorem lower_within_normal (schema : Tree) :
    (∀ members, (TypeExpr.union members).Within (lower schema) →
      2 ≤ members.length ∧ members.Nodup ∧
        (∀ t ∈ members, t.isUnion = false ∧ t ≠ unknown ∧ t ≠ never) ∧
        unionOf members = .union members) ∧
    ∀ members, (TypeExpr.intersection members).Within (lower schema) →
      2 ≤ members.length ∧ (∀ t ∈ members, t.isIntersection = false ∧ t ≠ unknown) ∧
        intersectionOf members = .intersection members := by
  constructor
  · intro members hwithin
    have hnormal : (TypeExpr.union members).IsNormal := (isNormal_lower schema).of_within hwithin
    have hagain := unionOf_of_isNormal hnormal
    cases hnormal with
    | union _ hlong hdistinct hplain => exact ⟨hlong, hdistinct, hplain, hagain⟩
  · intro members hwithin
    have hnormal : (TypeExpr.intersection members).IsNormal :=
      (isNormal_lower schema).of_within hwithin
    have hagain := intersectionOf_of_isNormal hnormal
    cases hnormal with
    | intersection _ hlong hplain => exact ⟨hlong, hplain, hagain⟩

/-! ## Entries with a note -/

/-- Objects with a note. Its schema has an `allOf` within another one and a schema without keys, a
schema that accepts nothing among several, and a tuple with `null` twice. Other keys have a list of
types that names one of them twice. -/
def notedSchema : Tree :=
  .map [("additionalProperties", .map [("type", .seq [.str "string", .str "null", .str "string"])]),
    ("properties", .map [("note", .map [("allOf", .seq [
      .map [("allOf", .seq [.map [("type", .str "string")], .map [("const", .num (.int 1))]])],
      .map [],
      .map [("anyOf", .seq [.bool false, .map [("type", .str "null")],
        .map [("items", .seq [.map [("enum", .seq [.str "x", .null])],
          .map [("type", .str "null")]])]])]])])]),
    ("required", .seq [.str "note"])]

/-- What a note must be, all at once. -/
def noteMembers : List TypeExpr :=
  [.named "string", .literal "1", .union [null, .array (.union [.literal "\"x\"", null])]]

/-- What the value under another key may be. -/
def notedIndexMembers : List TypeExpr := [.named "string", null, .intersection noteMembers]

/-- The intersection in the note has three members, one of them a union. It is a member of the union
for the other keys itself. -/
theorem lower_notedSchema_within_normal :
    (TypeExpr.intersection noteMembers).Within (lower notedSchema) ∧
      intersectionOf noteMembers = .intersection noteMembers ∧
      (TypeExpr.union notedIndexMembers).Within (lower notedSchema) ∧
      notedIndexMembers.Nodup := by
  have hlower : lower notedSchema =
      .object [(⟨"note", false, none⟩, .intersection noteMembers)]
        (some (.union notedIndexMembers)) := by rfl
  have hnote : (TypeExpr.intersection noteMembers).Within (lower notedSchema) :=
    hlower ▸ .property List.mem_cons_self .self
  have hindex : (TypeExpr.union notedIndexMembers).Within (lower notedSchema) :=
    hlower ▸ .index .self
  obtain ⟨hunions, hintersections⟩ := lower_within_normal notedSchema
  exact ⟨hnote, (hintersections _ hnote).2.2, hindex, (hunions _ hindex).2.1⟩

end EventSchema.TypeScript
