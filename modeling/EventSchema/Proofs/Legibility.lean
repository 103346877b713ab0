import EventSchema.Proofs.ObjectLines

/-!
# Written types are unambiguous

No two types of schemas are written alike, apart from types that only differ in comments.

* `form_eq` — the first character of a member of an intersection tells its form;
* `isLegible` — a normal type can be told from what follows it, wherever it stands in another type;
* `eraseDocs_eq_of_text_eq` — so the text of the type of a schema gives the type.
-/

namespace EventSchema.TypeScript

open TypeExpr

variable {t u : TypeExpr} {members : List TypeExpr} {properties : List (Member × TypeExpr)}
variable {index : Option TypeExpr} {indent : Nat} {rest rest' : List Char}

/-! ## The form of a type -/

/-- The forms of members of intersections. -/
inductive Form where
  | name
  | literal
  | array
  | object
  /-- a union, in parentheses -/
  | group
  deriving DecidableEq

/-- The form in which a type stands in an intersection. -/
def TypeExpr.form : TypeExpr → Form
  | .named _ => .name
  | .literal _ => .literal
  | .array _ => .array
  | .object _ _ => .object
  | .union _ => .group
  | .intersection _ => .group

/-- The form that the first character of a member of an intersection tells. -/
def formAt : Char → Form
  | '(' => .group
  | '\x7b' => .object
  | 'A' => .array
  | 's' => .name
  | 'n' => .name
  | 'b' => .name
  | 'u' => .name
  | _ => .literal

/-- A number does not start like anything else. -/
theorem formAt_of_isNumeral {c : Char} (h : isNumeral c = true) : formAt c = .literal := by
  unfold formAt
  split
  all_goals first
    | rfl
    | exact absurd h (by decide)

/-- The first character of a literal tells that it is one. -/
theorem formAt_literal {value : Tree} (h : literalType value = .literal value.compact) :
    value.compactText.head?.map formAt = some .literal := by
  cases value with
  | null => cases h
  | bool value => cases value <;> rfl
  | num value =>
    obtain ⟨c, cs, hcs⟩ := List.exists_cons_of_ne_nil (text_ne_nil value)
    have hall := all_text value
    rw [hcs, List.all_cons, Bool.and_eq_true] at hall
    rw [Tree.compactText, hcs, List.head?_cons, Option.map_some, formAt_of_isNumeral hall.1]
  | str value =>
    rw [Tree.compactText, Text.Quoted.quote, String.toList_ofList]
    rfl
  | seq => cases h
  | map => cases h

/-- The first character of a member of an intersection tells its form. -/
theorem formAt_factorText (h : t.IsNormal) (hplain : t.isIntersection = false) (indent : Nat) :
    (factorText indent t).head?.map formAt = some t.form := by
  have hnames : ∀ name ∈ typeNames, name.toList.head?.map formAt = some .name := by decide
  cases h with
  | named hname => exact hnames _ hname
  | literal hvalue =>
    have htext := formAt_literal hvalue
    rwa [factorText_eq rfl, render_literal, Tree.compact, String.toList_ofList]
  | array => rfl
  | object =>
    rw [factorText_eq rfl, render_object]
    split <;> rfl
  | union => rfl
  | intersection => cases hplain

/-- Two members of intersections that start one text have the same form. -/
theorem form_eq (ht : t.IsNormal) (htplain : t.isIntersection = false) (hu : u.IsNormal)
    (huplain : u.isIntersection = false)
    (h : factorText indent t ++ rest = factorText indent u ++ rest') : t.form = u.form := by
  obtain ⟨c, hc, hctells⟩ := Option.map_eq_some_iff.1 (formAt_factorText ht htplain indent)
  obtain ⟨d, hd, hdtells⟩ := Option.map_eq_some_iff.1 (formAt_factorText hu huplain indent)
  have hhead := congrArg List.head? h
  rw [List.head?_append, List.head?_append, hc, hd, Option.some_or, Option.some_or] at hhead
  rw [← hctells, ← hdtells, Option.some.inj hhead]

/-! ## All types -/

/-- The name of a type can be told from what follows it. -/
theorem legibleFactor_named {name : String} (hname : name ∈ typeNames) :
    LegibleFactor (named name) := by
  have hwords : ∀ name ∈ typeNames, name.toList.all isWordChar = true := by decide
  rintro indent u ⟨hu, huplain⟩ rest rest' hrest hrest' hsame
  have hform := form_eq (.named hname) rfl hu huplain hsame
  cases hu with
  | @named name' hname' =>
    obtain ⟨htext, hrests⟩ := word_cancel (hwords name hname) (hwords name' hname')
      (stopsWord_of_endsFactor hrest) (stopsWord_of_endsFactor hrest') hsame
    exact ⟨by rw [String.toList_injective htext], hrests⟩
  | _ => cases hform

/-- A literal can be told from what follows it. -/
theorem legibleFactor_literal {value : Tree} (hvalue : literalType value = .literal value.compact) :
    LegibleFactor (.literal value.compact) := by
  rintro indent u ⟨hu, huplain⟩ rest rest' hrest hrest' hsame
  have hform := form_eq (.literal hvalue) rfl hu huplain hsame
  cases hu with
  | @literal value' hvalue' =>
    rw [factorText_eq rfl, factorText_eq rfl, render_literal, render_literal, Tree.compact,
      Tree.compact, String.toList_ofList, String.toList_ofList] at hsame
    obtain ⟨htext, hrests⟩ := literal_cancel hvalue hvalue' (stopsWord_of_endsFactor hrest)
      (stopsWord_of_endsFactor hrest') hsame
    exact ⟨by rw [Tree.compact, Tree.compact, htext], hrests⟩
  | _ => cases hform

/-- An array type can be told from what follows it if the type of its items can. -/
theorem legibleFactor_array {item : TypeExpr} (hnormal : item.IsNormal) (hitem : LegibleType item) :
    LegibleFactor (.array item) := by
  have hends : ∀ rest, EndsType ('>' :: rest) := endsType_cons (by decide)
  rintro indent u ⟨hu, huplain⟩ rest rest' hrest hrest' hsame
  have hform := form_eq (.array hnormal) rfl hu huplain hsame
  cases hu with
  | @array item' hitem' =>
    rw [factorText_eq rfl, factorText_eq rfl, render_array, render_array] at hsame
    simp only [List.append_assoc, List.append_cancel_left_eq] at hsame
    obtain ⟨herased, hrests⟩ := hitem indent item' hitem' _ _ (hends rest) (hends rest') hsame
    exact ⟨by rw [eraseDocs, eraseDocs, herased], (List.cons.inj hrests).2⟩
  | _ => cases hform

/-- An object type can be told from what follows it if the types of its lines can. -/
theorem legibleFactor_object (hnormal : (TypeExpr.object properties index).IsNormal)
    (hentries : ∀ e ∈ entries properties index, LegibleType e.type) :
    LegibleFactor (.object properties index) := by
  rintro indent u ⟨hu, huplain⟩ rest rest' hrest hrest' hsame
  have hform := form_eq hnormal rfl hu huplain hsame
  cases hu with
  | object hproperties' hindex' =>
    exact object_cancel hentries (forall_entries hproperties' hindex') hsame
  | _ => cases hform

/-- A union in parentheses can be told from what follows it if the union can. -/
theorem legibleFactor_union (hnormal : (TypeExpr.union members).IsNormal)
    (hunion : LegibleType (.union members)) : LegibleFactor (.union members) := by
  have hends : ∀ rest, EndsType (')' :: rest) := endsType_cons (by decide)
  have hparens : ∀ (members : List TypeExpr) (indent : Nat) (rest : List Char),
      factorText indent (.union members) ++ rest =
        '(' :: (render indent (.union members) ++ ')' :: rest) := by
    intro members indent rest
    simp [factorText, isUnion, parenthesized]
  rintro indent u ⟨hu, huplain⟩ rest rest' hrest hrest' hsame
  have hform := form_eq hnormal rfl hu huplain hsame
  cases hu with
  | @union members' hmembers' hlong' hdistinct' hplain' =>
    rw [hparens, hparens] at hsame
    obtain ⟨herased, hrests⟩ := hunion indent _ (.union hmembers' hlong' hdistinct' hplain') _ _
      (hends rest) (hends rest') (List.cons.inj hsame).2
    exact ⟨herased, (List.cons.inj hrests).2⟩
  | intersection => cases huplain
  | _ => cases hform

/-- A type can be told from what follows it, wherever it stands. -/
structure TypeExpr.IsLegible (t : TypeExpr) : Prop where
  type : LegibleType t
  alternative : t.isUnion = false → LegibleAlternative t
  factor : t.isIntersection = false → LegibleFactor t

/-- A type that has no members is legible if it is so in an intersection. -/
theorem isLegible_of_factor (h : t.IsNormal) (hunion : t.isUnion = false)
    (hplain : t.isIntersection = false) (hfactor : LegibleFactor t) : t.IsLegible := by
  have halternative : LegibleAlternative t := by
    apply legibleAlternative h hunion
    rw [factors_of_not_isIntersection hplain]
    exact fun f hf => List.mem_singleton.1 hf ▸ hfactor
  refine ⟨legibleType h ?_, fun _ => halternative, fun _ => hfactor⟩
  rw [alternatives_of_not_isUnion hunion]
  exact fun a ha => List.mem_singleton.1 ha ▸ halternative

/-- Normal types are legible. -/
theorem isLegible (h : t.IsNormal) : t.IsLegible := by
  -- the members of a type are legible wherever they may stand, and where they do stand depends on
  -- the type: alternatives in a union, factors in an intersection, whole types in between brackets
  induction h with
  | named hname => exact isLegible_of_factor (.named hname) rfl rfl (legibleFactor_named hname)
  | literal hvalue =>
    exact isLegible_of_factor (.literal hvalue) rfl rfl (legibleFactor_literal hvalue)
  | array hitem ih =>
    exact isLegible_of_factor (.array hitem) rfl rfl (legibleFactor_array hitem ih.type)
  | @object properties index hproperties hindex ihproperties ihindex =>
    have hnormal := IsNormal.object hproperties hindex
    have hentries := forall_entries (fun p hp => (ihproperties p hp).type)
      fun other hother => (ihindex other hother).type
    exact isLegible_of_factor hnormal rfl rfl (legibleFactor_object hnormal hentries)
  | union hmembers hlong hdistinct hplain ih =>
    have hnormal := IsNormal.union hmembers hlong hdistinct hplain
    have htype := legibleType hnormal fun a ha => (ih a ha).alternative (hplain a ha).1
    exact ⟨htype, nofun, fun _ => legibleFactor_union hnormal htype⟩
  | intersection hmembers hlong hplain ih =>
    have hnormal := IsNormal.intersection hmembers hlong hplain
    have halternative := legibleAlternative hnormal rfl fun f hf => (ih f hf).factor (hplain f hf).1
    refine ⟨legibleType hnormal ?_, fun _ => halternative, nofun⟩
    exact fun a ha => List.mem_singleton.1 ha ▸ halternative

/-! ## Schemas -/

/-- Two schemas whose types are written alike have the same type, apart from comments. -/
theorem eraseDocs_eq_of_text_eq (schema schema' : Tree) (indent : Nat)
    (h : (lower schema).text indent = (lower schema').text indent) :
    (lower schema).eraseDocs = (lower schema').eraseDocs := by
  have hover : EndsType [] := nofun
  have htext : render indent (lower schema) ++ [] = render indent (lower schema') ++ [] := by
    rw [List.append_nil, List.append_nil]
    exact String.ofList_injective h
  have hlegible := (isLegible (isNormal_lower schema)).type
  exact (hlegible indent _ (isNormal_lower schema') [] [] hover hover htext).1

/-- A schema with one property, which is described by a text. -/
def describedSchema (description : String) : Tree :=
  .map [("properties", .map [("a b", .map
    [("description", .str description), ("type", .seq [.str "string", .str "null"])])])]

/-- Descriptions that look like code change nothing, also where the comments are written alike
although the types are different. -/
theorem eraseDocs_eq_brokenCloser :
    (lower (describedSchema "*/ c: never; /*")).text 1 =
        (lower (describedSchema "*\\/ c: never; /*")).text 1 ∧
      lower (describedSchema "*/ c: never; /*") ≠ lower (describedSchema "*\\/ c: never; /*") ∧
      (lower (describedSchema "*/ c: never; /*")).eraseDocs =
        (lower (describedSchema "*\\/ c: never; /*")).eraseDocs := by
  have htext : (lower (describedSchema "*/ c: never; /*")).text 1 =
      (lower (describedSchema "*\\/ c: never; /*")).text 1 := by decide
  exact ⟨htext, by decide, eraseDocs_eq_of_text_eq _ _ 1 htext⟩

end EventSchema.TypeScript
