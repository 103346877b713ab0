import EventSchema.TypeScript.Lowering

/-!
# The values of types

Which documents are values of a type, read structurally.

* `HasName` — the values of the types that only have a name;
* `Inhabits` — the values of all types. An object type without an index has no other keys than the
  declared ones, and an index is about the values under all keys;
* `inhabits_unionOf`, `inhabits_intersectionOf` — what is left out of a union or an intersection
  makes no difference to its values;
* `inhabits_literalType` — a value inhabits the type of every value that is written in the same way.
-/

namespace EventSchema.TypeScript

open TypeExpr

/-- The values of the types that only have a name. Nothing is `never`, and no document is
`undefined`. -/
inductive HasName : String → Tree → Prop
  | unknown (v : Tree) : HasName "unknown" v
  | null : HasName "null" .null
  | boolean (value : Bool) : HasName "boolean" (.bool value)
  | number (value : Number) : HasName "number" (.num value)
  | string (value : String) : HasName "string" (.str value)

/-- The type of a property is smaller than the type of the object. -/
theorem sizeOf_property_lt {properties : List (Member × TypeExpr)} {index : Option TypeExpr}
    {p : Member × TypeExpr} (hp : p ∈ properties) :
    sizeOf p.2 < sizeOf (object properties index) := by
  have hlt := List.sizeOf_lt_of_mem hp
  obtain ⟨member, type⟩ := p
  simp only [Prod.mk.sizeOf_spec] at hlt
  simp only [object.sizeOf_spec]
  omega

/-- A document is a value of a type. -/
def Inhabits : TypeExpr → Tree → Prop
  | .named name, v => HasName name v
  | .literal text, v => v.compact = text
  | .array item, v => ∃ items, v = .seq items ∧ ∀ x ∈ items, Inhabits item x
  | .object properties index, v =>
    ∃ entries, v = .map entries ∧
      (∀ p ∈ properties, p.1.optional = false → p.1.name ∈ Keyed.keys entries) ∧
      (∀ p ∈ properties, ∀ e ∈ entries, e.1 = p.1.name → Inhabits p.2 e.2) ∧
      (index = none → ∀ e ∈ entries, ∃ p ∈ properties, p.1.name = e.1) ∧
      (∀ other, index = some other → ∀ e ∈ entries, Inhabits other e.2)
  | .union members, v => ∃ member, ∃ _ : member ∈ members, Inhabits member v
  | .intersection members, v => ∀ member ∈ members, Inhabits member v
termination_by t => sizeOf t
decreasing_by
  · simp
  · exact sizeOf_property_lt ‹_›
  · subst index
    simp
    omega
  · next hmember =>
    have hlt := List.sizeOf_lt_of_mem hmember
    simp only [union.sizeOf_spec]
    omega
  · next hmember =>
    have hlt := List.sizeOf_lt_of_mem hmember
    simp only [intersection.sizeOf_spec]
    omega

variable {t : TypeExpr} {v : Tree} {members : List TypeExpr}

/-! ## Named types -/

/-- The values of a type that only has a name. -/
theorem inhabits_named {name : String} : Inhabits (named name) v ↔ HasName name v := by
  rw [Inhabits]

/-- Every document is a value of `unknown`. -/
@[simp] theorem inhabits_unknown : Inhabits unknown v :=
  inhabits_named.2 (.unknown v)

/-- No document is a value of `never`. -/
@[simp] theorem not_inhabits_never : ¬ Inhabits never v := by
  rw [never, inhabits_named]
  intro h
  generalize hname : "never" = name at h
  cases h <;> exact absurd hname (by decide)

/-- A value of a union is a value of one of its members. -/
theorem inhabits_union : Inhabits (union members) v ↔ ∃ t ∈ members, Inhabits t v := by
  rw [Inhabits]
  simp only [exists_prop]

/-- A value of an intersection is a value of all its members. -/
theorem inhabits_intersection :
    Inhabits (intersection members) v ↔ ∀ t ∈ members, Inhabits t v := by
  rw [Inhabits]

/-! ## Unions -/

/-- A list and its distinct members hold the same types. -/
theorem mem_distinct {ts : List TypeExpr} : t ∈ distinct ts ↔ t ∈ ts := by
  induction ts with
  | nil => rfl
  | cons u us ih =>
    simp only [distinct, List.mem_cons, List.mem_filter, ih, decide_eq_true_eq]
    constructor
    · rintro (rfl | ⟨h, -⟩)
      · exact .inl rfl
      · exact .inr h
    · rintro (rfl | h)
      · exact .inl rfl
      · by_cases htu : t = u
        · exact .inl htu
        · exact .inr ⟨h, htu⟩

/-- A value of a type is a value of one of its alternatives. -/
theorem inhabits_iff_alternatives : Inhabits t v ↔ ∃ a ∈ alternatives t, Inhabits a v := by
  cases t with
  | union members => exact inhabits_union
  | _ => simp [alternatives]

/-- A value of several types together as one. -/
theorem inhabits_collapse_union :
    Inhabits (collapse never union members) v ↔ ∃ t ∈ members, Inhabits t v := by
  unfold collapse
  split
  · simp
  · simp
  · exact inhabits_union

/-- A value of the union of some types is a value of one of them: neither flattening nor the removal
of what occurs twice, of what `unknown` absorbs, and of `never` changes the values. -/
theorem inhabits_unionOf : Inhabits (unionOf members) v ↔ ∃ t ∈ members, Inhabits t v := by
  have hflat : (∃ a ∈ distinct (members.flatMap alternatives), Inhabits a v) ↔
      ∃ t ∈ members, Inhabits t v := by
    constructor
    · rintro ⟨a, ha, hv⟩
      obtain ⟨t, ht, ha⟩ := List.mem_flatMap.1 (mem_distinct.1 ha)
      exact ⟨t, ht, inhabits_iff_alternatives.2 ⟨a, ha, hv⟩⟩
    · rintro ⟨t, ht, hv⟩
      obtain ⟨a, ha, hv⟩ := inhabits_iff_alternatives.1 hv
      exact ⟨a, mem_distinct.2 (List.mem_flatMap.2 ⟨t, ht, ha⟩), hv⟩
  rw [← hflat]
  dsimp only [unionOf]
  split
  · next h => exact ⟨fun _ => ⟨unknown, h, inhabits_unknown⟩, fun _ => inhabits_unknown⟩
  · rw [inhabits_collapse_union]
    constructor
    · rintro ⟨a, ha, hv⟩
      exact ⟨a, (List.mem_filter.1 ha).1, hv⟩
    · rintro ⟨a, ha, hv⟩
      refine ⟨a, List.mem_filter.2 ⟨ha, ?_⟩, hv⟩
      rw [decide_eq_true_eq]
      rintro rfl
      exact not_inhabits_never hv

/-! ## Intersections -/

/-- A value of a type is a value of all its conjuncts. -/
theorem inhabits_iff_conjuncts : Inhabits t v ↔ ∀ c ∈ conjuncts t, Inhabits c v := by
  cases t with
  | intersection members => exact inhabits_intersection
  | named name =>
    by_cases h : named name = unknown
    · simp [conjuncts, h]
    · simp [conjuncts, h]
  | _ => simp [conjuncts, unknown]

/-- A value of several types at once as one. -/
theorem inhabits_collapse_intersection :
    Inhabits (collapse unknown intersection members) v ↔ ∀ t ∈ members, Inhabits t v := by
  unfold collapse
  split
  · simp
  · simp
  · exact inhabits_intersection

/-- A value of the intersection of some types is a value of all of them. -/
theorem inhabits_intersectionOf :
    Inhabits (intersectionOf members) v ↔ ∀ t ∈ members, Inhabits t v := by
  have hflat : (∀ c ∈ members.flatMap conjuncts, Inhabits c v) ↔ ∀ t ∈ members, Inhabits t v := by
    constructor
    · intro h t ht
      exact inhabits_iff_conjuncts.2 fun c hc => h c (List.mem_flatMap.2 ⟨t, ht, hc⟩)
    · intro h c hc
      obtain ⟨t, ht, hc⟩ := List.mem_flatMap.1 hc
      exact inhabits_iff_conjuncts.1 (h t ht) c hc
  rw [← hflat, intersectionOf]
  exact inhabits_collapse_intersection

/-! ## Literals -/

/-- The characters that numbers are written with. -/
def isNumeral (c : Char) : Bool := c.isDigit || ['.', 'e', '+', '-'].contains c

/-- Integers are written in digits. -/
theorem all_digitsOf (n : Nat) : (Decimal.digitsOf n).all isNumeral = true := by
  rw [List.all_eq_true]
  intro c hc
  rw [isNumeral, Nat.isDigit_of_mem_toDigits (by decide) (by decide) hc, Bool.true_or]

/-- Exponents are written in numerals. -/
theorem all_exponentText (layout : Decimal.Layout) (e : Int) :
    (layout.exponentText e).all isNumeral = true := by
  have hplus : isNumeral '+' = true := by decide
  have hminus : isNumeral '-' = true := by decide
  unfold Decimal.Layout.exponentText
  cases e <;> cases layout.plusSign <;> simp [all_digitsOf, hplus, hminus, -List.all_eq_true]

/-- Magnitudes are written in numerals. -/
theorem all_magnitudeText (layout : Decimal.Layout) (d : Decimal.Digits) :
    (layout.magnitudeText d).all isNumeral = true := by
  have hpoint : isNumeral '.' = true := by decide
  have hzero : isNumeral '0' = true := by decide
  have hletter : isNumeral 'e' = true := by decide
  have htake : ∀ k, ((Decimal.digitsOf d.digits).take k).all isNumeral = true := fun k =>
    List.all_eq_true.2 fun c hc => List.all_eq_true.1 (all_digitsOf _) c (List.mem_of_mem_take hc)
  have hdrop : ∀ k, ((Decimal.digitsOf d.digits).drop k).all isNumeral = true := fun k =>
    List.all_eq_true.2 fun c hc => List.all_eq_true.1 (all_digitsOf _) c (List.mem_of_mem_drop hc)
  unfold Decimal.Layout.magnitudeText
  dsimp only
  split
  · decide
  · split
    · split
      · simp [all_digitsOf, hpoint, hzero, -List.all_eq_true]
      · simp [htake, hdrop, hpoint, -List.all_eq_true]
    · split
      · simp [all_digitsOf, hpoint, hzero, -List.all_eq_true]
      · split
        · simp [htake, hletter, all_exponentText, -List.all_eq_true]
        · simp [htake, hdrop, hpoint, hletter, all_exponentText, -List.all_eq_true, -List.drop_one]

/-- Numbers are written in numerals. -/
theorem all_text (value : Number) : value.text.all isNumeral = true := by
  have hminus : isNumeral '-' = true := by decide
  cases value with
  | int n =>
    cases n <;> simp [Number.text, Decimal.integerText, all_digitsOf, hminus, -List.all_eq_true]
  | real x =>
    rw [Number.text, Decimal.Layout.text, List.all_append, all_magnitudeText, Bool.and_true]
    cases x.negative <;> simp [hminus]

/-- Only null is written as null. -/
theorem eq_null_of_compact (h : v.compact = Tree.compact .null) : v = .null := by
  have htext : v.compactText = "null".toList := by
    have := congrArg String.toList h
    simpa [Tree.compact, Tree.compactText] using this
  cases v with
  | null => rfl
  | bool value => cases value <;> exact absurd htext (by decide)
  | num value =>
    have hnumerals := all_text value
    rw [← Tree.compactText, htext] at hnumerals
    exact absurd hnumerals (by decide)
  | str value =>
    rw [Tree.compactText, Text.Quoted.quote, String.toList_ofList] at htext
    cases htext
  | seq items =>
    rw [Tree.compactText] at htext
    cases htext
  | map fields =>
    rw [Tree.compactText] at htext
    cases htext

/-- A value inhabits the type of every value that is written in the same way. -/
theorem inhabits_literalType {value : Tree} (h : v.compact = value.compact) :
    Inhabits (literalType value) v := by
  cases value with
  | null =>
    rw [eq_null_of_compact h]
    exact inhabits_named.2 .null
  | seq => exact inhabits_unknown
  | map => exact inhabits_unknown
  | _ => simpa [literalType, Inhabits] using h

end EventSchema.TypeScript
