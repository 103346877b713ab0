/-!
# TypeScript types

The types that a generated module is written in.

* `TypeExpr` — named types, literals, arrays, objects, unions and intersections;
* `TypeExpr.unionOf`, `intersectionOf` — a union or an intersection with nothing superfluous in it.

Nested unions are flattened, a member occurs once, `unknown` absorbs the others and `never` is
dropped; an intersection is flattened and does without `unknown`. One member alone stands for
itself.
-/

namespace EventSchema.TypeScript

/-- A property of an object type, apart from its type. -/
structure Member where
  name : String
  optional : Bool
  /-- the text of its comment -/
  doc : Option String
  deriving DecidableEq, Repr

/-- A TypeScript type. -/
inductive TypeExpr where
  | named (name : String)
  /-- a literal type, given as it is written -/
  | literal (text : String)
  | array (item : TypeExpr)
  /-- the declared properties, and the type of the values under all other keys if there may be
  some -/
  | object (properties : List (Member × TypeExpr)) (index : Option TypeExpr)
  | union (members : List TypeExpr)
  | intersection (members : List TypeExpr)
  deriving Repr, Inhabited

namespace TypeExpr

/-- The type of all values. -/
def unknown : TypeExpr := named "unknown"

/-- The type without values. -/
def never : TypeExpr := named "never"

/-- The type of a property that is not there. -/
def undefined : TypeExpr := named "undefined"

/-- The type of null. -/
def null : TypeExpr := named "null"

mutual

/-- Decides whether two types are identical. -/
def decEq : (a b : TypeExpr) → Decidable (a = b)
  | named x, b => by
    cases b with
    | named y => exact decidable_of_iff (x = y) (by simp)
    | _ => exact isFalse nofun
  | literal x, b => by
    cases b with
    | literal y => exact decidable_of_iff (x = y) (by simp)
    | _ => exact isFalse nofun
  | array x, b => by
    cases b with
    | array y => exact @decidable_of_iff _ (x = y) (by simp) (decEq x y)
    | _ => exact isFalse nofun
  | object x i, b => by
    cases b with
    | object y j =>
      exact @decidable_of_iff _ (x = y ∧ i = j) (by simp)
        (@instDecidableAnd _ _ (decEqProperties x y) (decEqIndex i j))
    | _ => exact isFalse nofun
  | union x, b => by
    cases b with
    | union y => exact @decidable_of_iff _ (x = y) (by simp) (decEqMembers x y)
    | _ => exact isFalse nofun
  | intersection x, b => by
    cases b with
    | intersection y => exact @decidable_of_iff _ (x = y) (by simp) (decEqMembers x y)
    | _ => exact isFalse nofun
termination_by structural t => t

/-- Decides whether two lists of types are identical. -/
def decEqMembers : (as bs : List TypeExpr) → Decidable (as = bs)
  | [], [] => isTrue rfl
  | [], _ :: _ => isFalse nofun
  | _ :: _, [] => isFalse nofun
  | a :: as, b :: bs =>
    match decEq a b, decEqMembers as bs with
    | isTrue h, isTrue hs => isTrue (by rw [h, hs])
    | isFalse h, _ => isFalse fun e => h (List.cons.inj e).1
    | _, isFalse hs => isFalse fun e => hs (List.cons.inj e).2
termination_by structural ts => ts

/-- Decides whether two lists of properties are identical. -/
def decEqProperties : (as bs : List (Member × TypeExpr)) → Decidable (as = bs)
  | [], [] => isTrue rfl
  | [], _ :: _ => isFalse nofun
  | _ :: _, [] => isFalse nofun
  | (k, a) :: as, (l, b) :: bs =>
    match (inferInstance : Decidable (k = l)), decEq a b, decEqProperties as bs with
    | isTrue hk, isTrue h, isTrue hs => isTrue (by rw [hk, h, hs])
    | isFalse hk, _, _ => isFalse fun e => hk (Prod.mk.inj (List.cons.inj e).1).1
    | _, isFalse h, _ => isFalse fun e => h (Prod.mk.inj (List.cons.inj e).1).2
    | _, _, isFalse hs => isFalse fun e => hs (List.cons.inj e).2
termination_by structural ps => ps

/-- Decides whether two optional types are identical. -/
def decEqIndex : (a b : Option TypeExpr) → Decidable (a = b)
  | none, none => isTrue rfl
  | none, some _ => isFalse nofun
  | some _, none => isFalse nofun
  | some a, some b =>
    match decEq a b with
    | isTrue h => isTrue (by rw [h])
    | isFalse h => isFalse fun e => h (Option.some.inj e)
termination_by structural i => i

end

instance : DecidableEq TypeExpr := decEq

/-- The types of a list in their order, each once, at its first place. -/
def distinct : List TypeExpr → List TypeExpr
  | [] => []
  | t :: ts => t :: (distinct ts).filter (· ≠ t)

/-- The types that a value of a union may have. -/
def alternatives : TypeExpr → List TypeExpr
  | union members => members
  | t => [t]

/-- The types that a value of an intersection must have. -/
def conjuncts : TypeExpr → List TypeExpr
  | intersection members => members
  | t => if t = unknown then [] else [t]

/-- A list of types as one type: none at all, a single one, or several together. -/
def collapse (empty : TypeExpr) (several : List TypeExpr → TypeExpr) : List TypeExpr → TypeExpr
  | [] => empty
  | [t] => t
  | ts => several ts

/-- The union of some types. -/
def unionOf (members : List TypeExpr) : TypeExpr :=
  let flat := distinct (members.flatMap alternatives)
  if unknown ∈ flat then unknown else collapse never union (flat.filter (· ≠ never))

/-- The intersection of some types. -/
def intersectionOf (members : List TypeExpr) : TypeExpr :=
  collapse unknown intersection (members.flatMap conjuncts)

end TypeExpr

end EventSchema.TypeScript
