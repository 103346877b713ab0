import EventSchema.Proofs.Lexemes
import EventSchema.Proofs.NormalTypes

/-!
# The members of written types

A union is written with a sign between its members and so is an intersection, and the members can be
told apart if each of them can be told from what follows it.

* `eraseDocs` — a type without the comments of its properties, at all depths;
* `Legible` — what is seen of a written item is seen whatever follows it, as long as that ends the
  item;
* `separated_cancel` — legible items between separators are seen one by one;
* `EndsType`, `EndsAlternative`, `EndsFactor` — what ends a type, an alternative of a union, and a
  member of an intersection, where a union stands in parentheses;
* `legibleAlternative`, `legibleType` — legible factors make a legible alternative, and legible
  alternatives a legible type.
-/

namespace EventSchema.TypeScript

open TypeExpr

/-! ## Types without comments -/

/-- A property without its comment. -/
def Member.eraseDoc (m : Member) : Member := { m with doc := none }

namespace TypeExpr

mutual

/-- A type without the comments of its properties, at all depths. -/
def eraseDocs : TypeExpr → TypeExpr
  | named name => named name
  | literal text => literal text
  | array item => array (eraseDocs item)
  | object properties index => object (eraseProperties properties) (eraseIndex index)
  | union members => union (eraseEach members)
  | intersection members => intersection (eraseEach members)
termination_by structural t => t

/-- Types without comments. -/
def eraseEach : List TypeExpr → List TypeExpr
  | [] => []
  | t :: ts => eraseDocs t :: eraseEach ts
termination_by structural ts => ts

/-- Properties without comments. -/
def eraseProperties : List (Member × TypeExpr) → List (Member × TypeExpr)
  | [] => []
  | (m, t) :: properties => (m.eraseDoc, eraseDocs t) :: eraseProperties properties
termination_by structural ps => ps

/-- The type of the values under other keys without comments. -/
def eraseIndex : Option TypeExpr → Option TypeExpr
  | none => none
  | some t => some (eraseDocs t)
termination_by structural i => i

end

end TypeExpr

variable {α β : Type} {t u : TypeExpr} {members : List TypeExpr} {indent : Nat}
variable {rest rest' : List Char}

/-- Types without comments, one by one. -/
theorem eraseEach_eq (members : List TypeExpr) : eraseEach members = members.map eraseDocs := by
  induction members with
  | nil => rfl
  | cons t ts ih => rw [eraseEach, ih, List.map_cons]

/-! ## The members of written types -/

/-- The types that stand between the signs of an intersection. -/
def factors : TypeExpr → List TypeExpr
  | .intersection members => members
  | t => [t]

/-- A member of an intersection as it is written. -/
def factorText (indent : Nat) (t : TypeExpr) : List Char :=
  parenthesized t.isUnion (render indent t)

/-- A literal type is written as it is given. -/
theorem render_literal (text : String) : render indent (.literal text) = text.toList := rfl

/-- An array type is written around the type of its items. -/
theorem render_array (item : TypeExpr) :
    render indent (.array item) = "Array<".toList ++ render indent item ++ ['>'] := rfl

/-- The members of a union as they are written. -/
theorem renderEach_eq (members : List TypeExpr) :
    renderEach indent members = members.map (render indent) := by
  induction members with
  | nil => rfl
  | cons t ts ih => rw [renderEach, ih, List.map_cons]

/-- The members of an intersection as they are written. -/
theorem renderConjuncts_eq (members : List TypeExpr) :
    renderConjuncts indent members = members.map (factorText indent) := by
  induction members with
  | nil => rfl
  | cons t ts ih => rw [renderConjuncts, ih, List.map_cons, factorText]

/-- A union is written as its members with a separator in between. -/
theorem render_union (members : List TypeExpr) :
    render indent (.union members) =
      " | ".toList.intercalate (members.map (render indent)) := by
  rw [← renderEach_eq]
  rfl

/-- An intersection is written as its members with a separator in between. -/
theorem render_intersection (members : List TypeExpr) :
    render indent (.intersection members) =
      " & ".toList.intercalate (members.map (factorText indent)) := by
  rw [← renderConjuncts_eq]
  rfl

/-- A type is written as its alternatives with a separator in between. -/
theorem render_eq_alternatives (indent : Nat) (t : TypeExpr) :
    render indent t = " | ".toList.intercalate ((alternatives t).map (render indent)) := by
  cases t with
  | union members => rw [render_union, alternatives]
  | _ => simp [alternatives]

/-- Without its parentheses a member of an intersection is written as a type is. -/
theorem factorText_eq (h : t.isUnion = false) : factorText indent t = render indent t := by
  rw [factorText, h]
  rfl

/-- An alternative is written as its factors with a separator in between. -/
theorem render_eq_factors (h : t.isUnion = false) :
    render indent t = " & ".toList.intercalate ((factors t).map (factorText indent)) := by
  cases t with
  | intersection members => rw [render_intersection, factors]
  | _ => simp [factors, factorText_eq h]

/-- A list with several types stays such a list without comments. -/
theorem collapse_eraseDocs {empty : TypeExpr} {several : List TypeExpr → TypeExpr}
    (hlong : 2 ≤ members.length) :
    collapse empty several (members.map eraseDocs) = several (members.map eraseDocs) := by
  match members, hlong with
  | _ :: _ :: _, _ => rfl

/-- A normal type without comments is given by its alternatives without comments. -/
theorem eraseDocs_eq_alternatives (h : t.IsNormal) :
    t.eraseDocs = collapse never .union ((alternatives t).map eraseDocs) := by
  cases h with
  | union hmembers hlong =>
    rw [alternatives, collapse_eraseDocs hlong, eraseDocs, eraseEach_eq]
  | _ => rfl

/-- A normal type without comments is given by its factors without comments. -/
theorem eraseDocs_eq_factors (h : t.IsNormal) :
    t.eraseDocs = collapse unknown .intersection ((factors t).map eraseDocs) := by
  cases h with
  | intersection hmembers hlong =>
    rw [factors, collapse_eraseDocs hlong, eraseDocs, eraseEach_eq]
  | _ => rfl

/-- A normal type has alternatives. -/
theorem alternatives_ne_nil (h : t.IsNormal) : alternatives t ≠ [] := by
  cases h with
  | union hmembers hlong =>
    rintro rfl
    simp at hlong
  | _ => simp [alternatives]

/-- A normal type has factors. -/
theorem factors_ne_nil (h : t.IsNormal) : factors t ≠ [] := by
  cases h with
  | intersection hmembers hlong =>
    rintro rfl
    simp at hlong
  | _ => simp [factors]

/-- What is no intersection is its only factor. -/
theorem factors_of_not_isIntersection (h : t.isIntersection = false) : factors t = [t] := by
  cases t with
  | intersection => cases h
  | _ => rfl

/-- The factors of a normal type are normal and no intersections. -/
theorem isNormal_factors (h : t.IsNormal) :
    ∀ f ∈ factors t, f.IsNormal ∧ f.isIntersection = false := by
  intro f hf
  cases ht : t.isIntersection with
  | true =>
    cases h with
    | intersection hmembers _ hplain => exact ⟨hmembers f hf, (hplain f hf).1⟩
    | _ => cases ht
  | false =>
    rw [factors_of_not_isIntersection ht, List.mem_singleton] at hf
    exact hf ▸ ⟨h, ht⟩

/-! ## Legible items -/

/-- What is seen of a written item is seen whatever follows, if that ends the item. -/
def Legible (write : α → List Char) (see : α → β) (good : α → Prop) (ends : List Char → Prop)
    (x : α) : Prop :=
  ∀ y, good y → ∀ rest rest', ends rest → ends rest' →
    write x ++ rest = write y ++ rest' → see x = see y ∧ rest = rest'

/-- Items with a separator in front of each. -/
theorem flatMap_separated {write : α → List Char} {sep : List Char} {xs : List α} (h : xs ≠ []) :
    sep ++ sep.intercalate (xs.map write) = xs.flatMap (fun x => sep ++ write x) := by
  induction xs with
  | nil => exact absurd rfl h
  | cons x xs ih =>
    cases xs with
    | nil => simp
    | cons y ys =>
      rw [List.map_cons, List.map_cons, List.intercalate_cons_cons, List.flatMap_cons,
        ← ih (List.cons_ne_nil _ _), List.map_cons, List.append_assoc, List.append_assoc]

variable {write : α → List Char} {see : α → β} {good : α → Prop} {ends : List Char → Prop}
variable {sep : List Char}

/-- Items with a separator in front of each start with the separator. -/
theorem prefix_flatMap_separated (write : α → List Char) (sep : List Char) (x : α) (xs : List α)
    (rest : List Char) : sep <+: (x :: xs).flatMap (fun x => sep ++ write x) ++ rest := by
  rw [List.flatMap_cons, List.append_assoc, List.append_assoc]
  exact List.prefix_append _ _

/-- Legible items with a separator in front of each are seen one by one. -/
theorem flatMap_cancel (hsep : ∀ rest, ends rest → ¬ sep <+: rest) {xs ys : List α}
    (hxs : ∀ x ∈ xs, Legible write see good (fun rest => ends rest ∨ sep <+: rest) x)
    (hys : ∀ y ∈ ys, good y) (hrest : ends rest) (hrest' : ends rest')
    (h : xs.flatMap (fun x => sep ++ write x) ++ rest =
      ys.flatMap (fun y => sep ++ write y) ++ rest') :
    xs.map see = ys.map see ∧ rest = rest' := by
  -- behind an item there is either nothing more of its list or the next separator
  have hnext : ∀ (zs : List α) (rest : List Char), ends rest →
      ends (zs.flatMap (fun z => sep ++ write z) ++ rest) ∨
        sep <+: zs.flatMap (fun z => sep ++ write z) ++ rest := by
    intro zs rest hrest
    cases zs with
    | nil => exact .inl hrest
    | cons z zs => exact .inr (prefix_flatMap_separated write sep z zs rest)
  induction xs generalizing ys with
  | nil =>
    cases ys with
    | nil => exact ⟨rfl, h⟩
    | cons y ys =>
      have hstart := prefix_flatMap_separated write sep y ys rest'
      rw [← h] at hstart
      exact absurd hstart (hsep rest hrest)
  | cons x xs ih =>
    cases ys with
    | nil =>
      have hstart := prefix_flatMap_separated write sep x xs rest
      rw [h] at hstart
      exact absurd hstart (hsep rest' hrest')
    | cons y ys =>
      simp only [List.flatMap_cons, List.append_assoc, List.append_cancel_left_eq] at h
      obtain ⟨hsee, htail⟩ := hxs x List.mem_cons_self y (hys y List.mem_cons_self) _ _
        (hnext xs rest hrest) (hnext ys rest' hrest') h
      obtain ⟨hmap, hrests⟩ := ih (fun x hx => hxs x (List.mem_cons_of_mem _ hx))
        (fun y hy => hys y (List.mem_cons_of_mem _ hy)) htail
      exact ⟨by rw [List.map_cons, List.map_cons, hsee, hmap], hrests⟩

/-- Legible items with a separator in between are seen one by one. -/
theorem separated_cancel (hsep : ∀ rest, ends rest → ¬ sep <+: rest) {xs ys : List α}
    (hxs : ∀ x ∈ xs, Legible write see good (fun rest => ends rest ∨ sep <+: rest) x)
    (hys : ∀ y ∈ ys, good y) (hxne : xs ≠ []) (hyne : ys ≠ []) (hrest : ends rest)
    (hrest' : ends rest')
    (h : sep.intercalate (xs.map write) ++ rest = sep.intercalate (ys.map write) ++ rest') :
    xs.map see = ys.map see ∧ rest = rest' := by
  apply flatMap_cancel hsep hxs hys hrest hrest'
  rw [← flatMap_separated hxne, ← flatMap_separated hyne, List.append_assoc, List.append_assoc, h]

/-! ## What follows a type -/

/-- Whether a text ends a type. -/
def EndsType (rest : List Char) : Prop := ∀ c ∈ rest.head?, c ∈ ['>', ';', ')']

/-- Whether a text ends an alternative of a union. -/
def EndsAlternative (rest : List Char) : Prop := EndsType rest ∨ " | ".toList <+: rest

/-- Whether a text ends a member of an intersection. -/
def EndsFactor (rest : List Char) : Prop := EndsAlternative rest ∨ " & ".toList <+: rest

/-- A bracket or a semicolon ends a type, whatever follows. -/
theorem endsType_cons {c : Char} (h : c ∈ ['>', ';', ')']) (rest : List Char) :
    EndsType (c :: rest) := by
  intro d hd
  obtain rfl := Option.some.inj hd
  exact h

/-- What ends a type starts no further alternative. -/
theorem not_prefix_of_endsType (h : EndsType rest) : ¬ " | ".toList <+: rest := by
  rintro ⟨tail, rfl⟩
  exact absurd (h ' ' rfl) (by decide)

/-- What ends an alternative starts no further member of an intersection. -/
theorem not_prefix_of_endsAlternative (h : EndsAlternative rest) : ¬ " & ".toList <+: rest := by
  rintro ⟨tail, rfl⟩
  rcases h with h | ⟨tail', h⟩
  · exact absurd (h ' ' rfl) (by decide)
  · have hsign : '|' = '&' := (List.cons.inj (List.cons.inj h).2).1
    exact absurd hsign (by decide)

/-- What ends a member of an intersection ends a word. -/
theorem stopsWord_of_endsFactor (h : EndsFactor rest) : StopsWord isWordChar rest := by
  have hmarks : ['>', ';', ')'].all (fun c => !isWordChar c) = true := by decide
  rcases h with (h | ⟨tail, rfl⟩) | ⟨tail, rfl⟩
  · intro c hc
    simpa using List.all_eq_true.1 hmarks c (h c hc)
  · intro c hc
    cases hc
    decide
  · intro c hc
    cases hc
    decide

/-- A type that can be told from what follows it. -/
abbrev LegibleType (t : TypeExpr) : Prop :=
  ∀ indent, Legible (render indent) eraseDocs IsNormal EndsType t

/-- An alternative of a union that can be told from what follows it. -/
abbrev LegibleAlternative (t : TypeExpr) : Prop :=
  ∀ indent, Legible (render indent) eraseDocs (fun u => u.IsNormal ∧ u.isUnion = false)
    EndsAlternative t

/-- A member of an intersection that can be told from what follows it. -/
abbrev LegibleFactor (t : TypeExpr) : Prop :=
  ∀ indent, Legible (factorText indent) eraseDocs (fun u => u.IsNormal ∧ u.isIntersection = false)
    EndsFactor t

/-- Legible factors make a legible alternative. -/
theorem legibleAlternative (ht : t.IsNormal) (hunion : t.isUnion = false)
    (h : ∀ f ∈ factors t, LegibleFactor f) : LegibleAlternative t := by
  rintro indent u ⟨hu, huunion⟩ rest rest' hrest hrest' hsame
  rw [render_eq_factors hunion, render_eq_factors huunion] at hsame
  obtain ⟨hfactors, hrests⟩ := separated_cancel (fun _ => not_prefix_of_endsAlternative)
    (fun f hf => h f hf indent) (isNormal_factors hu) (factors_ne_nil ht) (factors_ne_nil hu)
    hrest hrest' hsame
  exact ⟨by rw [eraseDocs_eq_factors ht, eraseDocs_eq_factors hu, hfactors], hrests⟩

/-- Legible alternatives make a legible type. -/
theorem legibleType (ht : t.IsNormal) (h : ∀ a ∈ alternatives t, LegibleAlternative a) :
    LegibleType t := by
  intro indent u hu rest rest' hrest hrest' hsame
  rw [render_eq_alternatives indent t, render_eq_alternatives indent u] at hsame
  obtain ⟨halternatives, hrests⟩ := separated_cancel (fun _ => not_prefix_of_endsType)
    (fun a ha => h a ha indent) (isNormal_alternatives hu) (alternatives_ne_nil ht)
    (alternatives_ne_nil hu) hrest hrest' hsame
  exact ⟨by rw [eraseDocs_eq_alternatives ht, eraseDocs_eq_alternatives hu, halternatives], hrests⟩

end EventSchema.TypeScript
