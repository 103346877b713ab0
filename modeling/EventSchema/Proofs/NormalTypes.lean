import EventSchema.Proofs.LoweredTypes
import EventSchema.TypeScript.Type.Printer

/-!
# Normal types

The types that schemas have. There is nothing superfluous in them, at any depth, and their names and
literals are those of the language.

* `TypeExpr.IsNormal` — unions and intersections have several members, none of which could be
  flattened, absorbed or dropped;
* `isNormal_unionOf`, `isNormal_intersectionOf` — the union and the intersection of normal types are
  normal, although both flatten one level only;
* `TypeExpr.IsLowered.isNormal`, `isNormal_lower` — so the type of every schema is normal.
-/

namespace EventSchema.TypeScript

open TypeExpr

/-! ## Definition -/

/-- Whether a type is an intersection. -/
def TypeExpr.isIntersection : TypeExpr → Bool
  | .intersection _ => true
  | _ => false

/-- A type in which nothing is superfluous, at any depth. -/
inductive TypeExpr.IsNormal : TypeExpr → Prop
  | named {name : String} (hname : name ∈ typeNames) : IsNormal (named name)
  /-- the type of a value that has a type of its own -/
  | literal {value : Tree} (hvalue : literalType value = .literal value.compact) :
      IsNormal (.literal value.compact)
  | array {item : TypeExpr} (hitem : IsNormal item) : IsNormal (.array item)
  | object {properties : List (Member × TypeExpr)} {index : Option TypeExpr}
      (hproperties : ∀ p ∈ properties, IsNormal p.2)
      (hindex : ∀ other, index = some other → IsNormal other) : IsNormal (.object properties index)
  | union {members : List TypeExpr} (hmembers : ∀ t ∈ members, IsNormal t)
      (hlong : 2 ≤ members.length) (hdistinct : members.Nodup)
      (hplain : ∀ t ∈ members, t.isUnion = false ∧ t ≠ unknown ∧ t ≠ never) :
      IsNormal (.union members)
  | intersection {members : List TypeExpr} (hmembers : ∀ t ∈ members, IsNormal t)
      (hlong : 2 ≤ members.length)
      (hplain : ∀ t ∈ members, t.isIntersection = false ∧ t ≠ unknown) :
      IsNormal (.intersection members)

variable {t : TypeExpr} {members : List TypeExpr}

/-! ## Unions and intersections -/

/-- What holds of several types together as one: it holds of the type for none, of the types and of
them together. -/
theorem collapse_cases {P : TypeExpr → Prop} {empty : TypeExpr}
    {several : List TypeExpr → TypeExpr} (hempty : P empty) (hone : ∀ t ∈ members, P t)
    (hseveral : 2 ≤ members.length → P (several members)) : P (collapse empty several members) := by
  match members, hone, hseveral with
  | [], _, _ => exact hempty
  | [t], hone, _ => exact hone t List.mem_cons_self
  | _ :: _ :: _, _, hseveral => exact hseveral (by simp)

/-- What is no union is its only alternative. -/
theorem alternatives_of_not_isUnion (h : t.isUnion = false) : alternatives t = [t] := by
  cases t with
  | union => cases h
  | _ => rfl

/-- What is no intersection is its only conjunct, unless it is `unknown`. -/
theorem conjuncts_of_not_isIntersection (h : t.isIntersection = false) :
    conjuncts t = if t = unknown then [] else [t] := by
  cases t with
  | intersection => cases h
  | _ => rfl

/-- The alternatives of a normal type are normal, and no unions. -/
theorem isNormal_alternatives (h : t.IsNormal) :
    ∀ a ∈ alternatives t, a.IsNormal ∧ a.isUnion = false := by
  intro a ha
  cases ht : t.isUnion with
  | true =>
    cases h with
    | union hmembers _ _ hplain => exact ⟨hmembers a ha, (hplain a ha).1⟩
    | _ => cases ht
  | false =>
    rw [alternatives_of_not_isUnion ht, List.mem_singleton] at ha
    exact ha ▸ ⟨h, ht⟩

/-- The conjuncts of a normal type are normal, and neither intersections nor `unknown`. -/
theorem isNormal_conjuncts (h : t.IsNormal) :
    ∀ c ∈ conjuncts t, c.IsNormal ∧ c.isIntersection = false ∧ c ≠ unknown := by
  intro c hc
  cases ht : t.isIntersection with
  | true =>
    cases h with
    | intersection hmembers _ hplain => exact ⟨hmembers c hc, hplain c hc⟩
    | _ => cases ht
  | false =>
    rw [conjuncts_of_not_isIntersection ht] at hc
    split at hc
    · cases hc
    · next hunknown =>
      obtain rfl := List.mem_singleton.1 hc
      exact ⟨h, ht, hunknown⟩

/-- The distinct types of a list are different from each other. -/
theorem nodup_distinct (ts : List TypeExpr) : (distinct ts).Nodup := by
  induction ts with
  | nil => exact List.nodup_nil
  | cons t ts ih =>
    rw [distinct, List.nodup_cons]
    exact ⟨by simp, ih.filter _⟩

/-- The union of normal types is normal. -/
theorem isNormal_unionOf (h : ∀ t ∈ members, t.IsNormal) : (unionOf members).IsNormal := by
  have hflat : ∀ a ∈ distinct (members.flatMap alternatives), a.IsNormal ∧ a.isUnion = false := by
    intro a ha
    obtain ⟨t, ht, ha⟩ := List.mem_flatMap.1 (mem_distinct.1 ha)
    exact isNormal_alternatives (h t ht) a ha
  dsimp only [unionOf]
  split
  · exact .named (by decide)
  · next hunknown =>
    have hmem : ∀ a ∈ (distinct (members.flatMap alternatives)).filter (· ≠ never),
        a ∈ distinct (members.flatMap alternatives) ∧ a ≠ never := by
      intro a ha
      simpa using List.mem_filter.1 ha
    refine collapse_cases (.named (by decide)) (fun a ha => (hflat a (hmem a ha).1).1) ?_
    intro hlong
    refine .union (fun a ha => (hflat a (hmem a ha).1).1) hlong ((nodup_distinct _).filter _) ?_
    intro a ha
    obtain ⟨hin, hnever⟩ := hmem a ha
    refine ⟨(hflat a hin).2, ?_, hnever⟩
    rintro rfl
    exact hunknown hin

/-- The intersection of normal types is normal. -/
theorem isNormal_intersectionOf (h : ∀ t ∈ members, t.IsNormal) :
    (intersectionOf members).IsNormal := by
  have hflat : ∀ c ∈ members.flatMap conjuncts,
      c.IsNormal ∧ c.isIntersection = false ∧ c ≠ unknown := by
    intro c hc
    obtain ⟨t, ht, hc⟩ := List.mem_flatMap.1 hc
    exact isNormal_conjuncts (h t ht) c hc
  rw [intersectionOf]
  refine collapse_cases (.named (by decide)) (fun c hc => (hflat c hc).1) fun hlong => ?_
  exact .intersection (fun c hc => (hflat c hc).1) hlong fun c hc => (hflat c hc).2

/-! ## Schemas -/

/-- The type of one value is normal. -/
theorem isNormal_literalType (value : Tree) : (literalType value).IsNormal := by
  cases value with
  | null => exact .named (by decide)
  | seq => exact .named (by decide)
  | map => exact .named (by decide)
  | bool b => exact .literal (rfl : literalType (.bool b) = _)
  | num n => exact .literal (rfl : literalType (.num n) = _)
  | str s => exact .literal (rfl : literalType (.str s) = _)

/-- The types that an index type is a union of: the one for the other keys, those of the declared
properties, and maybe that of a property that is not there. -/
theorem forall_indexed {P : TypeExpr → Prop} {extra : TypeExpr}
    {properties : List (Member × TypeExpr)} (hextra : P extra)
    (hproperties : ∀ p ∈ properties, P p.2) (hundefined : P undefined) :
    ∀ t ∈ extra :: properties.map (·.2) ++
      if properties.any (·.1.optional) then [undefined] else [], P t := by
  intro t ht
  rcases List.mem_append.1 ht with ht | ht
  · rcases List.mem_cons.1 ht with rfl | ht
    · exact hextra
    · obtain ⟨p, hp, rfl⟩ := List.mem_map.1 ht
      exact hproperties p hp
  · split at ht
    · exact List.mem_singleton.1 ht ▸ hundefined
    · cases ht

/-- What is put together by the rules of lowering is normal. -/
theorem TypeExpr.IsLowered.isNormal (h : t.IsLowered) : t.IsNormal := by
  have hsome : ∀ t : TypeExpr, t.IsNormal → ∀ other, some t = some other → other.IsNormal :=
    fun _ ht _ hother => Option.some.inj hother ▸ ht
  induction h with
  | named hname => exact .named hname
  | value value => exact isNormal_literalType value
  | array _ ih => exact .array ih
  | closed _ ih => exact .object ih nofun
  | free _ ih => exact .object ih (hsome _ (.named (by decide)))
  | indexed _ _ ih ihextra =>
    exact .object ih (hsome _ (isNormal_unionOf (forall_indexed ihextra ih (.named (by decide)))))
  | unionOf _ ih => exact isNormal_unionOf ih
  | intersectionOf _ ih => exact isNormal_intersectionOf ih

/-- The type of every schema is normal. -/
theorem isNormal_lower (schema : Tree) : (lower schema).IsNormal :=
  (isLowered_lower schema).isNormal

end EventSchema.TypeScript
