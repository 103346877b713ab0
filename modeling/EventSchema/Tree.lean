import EventSchema.Decimal.Layout
import EventSchema.Keyed
import EventSchema.Text.Quoted

/-!
# Schema trees

A parsed schema document, whatever markup it was written in.

* `Tree` — null, booleans, numbers, strings, sequences, and maps with their keys in order;
* `Tree.byParts` — induction from the parts of a tree to the whole;
* `Tree.compact`, `Tree.pretty` — a tree as JSON text, on one line and over several;
* `Tree.same` — equality of values, for which the real numbers `0.0` and `-0.0` are equal; an
  integer is never equal to a real number.
-/

namespace EventSchema

/-- A number of a document: an exact integer, or a binary64 number. -/
inductive Number where
  | int (value : Int)
  | real (value : Double)
  deriving DecidableEq, Repr

/-- A schema document, or a part of one. -/
inductive Tree where
  | null
  | bool (value : Bool)
  | num (value : Number)
  | str (value : String)
  | seq (items : List Tree)
  | map (fields : List (String × Tree))
  deriving Repr, Inhabited

/-- The fields of a map. -/
abbrev Fields := Keyed Tree

/-- What holds of whatever has no parts, of a sequence if it holds of all items, and of a map if it
holds of all values, holds of every tree. -/
@[elab_as_elim]
theorem Tree.byParts {motive : Tree → Prop} (null : motive .null)
    (bool : ∀ value, motive (.bool value)) (num : ∀ value, motive (.num value))
    (str : ∀ value, motive (.str value))
    (seq : ∀ items, (∀ t ∈ items, motive t) → motive (.seq items))
    (map : ∀ fields, (∀ e ∈ fields, motive e.2) → motive (.map fields)) (t : Tree) : motive t := by
  induction hsize : sizeOf t using Nat.strongRecOn generalizing t with
  | ind size ih =>
    subst hsize
    cases t with
    | null => exact null
    | bool value => exact bool value
    | num value => exact num value
    | str value => exact str value
    | seq items =>
      refine seq items fun t ht => ih _ ?_ t rfl
      have hlt := List.sizeOf_lt_of_mem ht
      simp only [Tree.seq.sizeOf_spec]
      omega
    | map fields =>
      refine map fields fun e he => ih _ ?_ e.2 rfl
      have hlt := List.sizeOf_lt_of_mem he
      obtain ⟨k, t⟩ := e
      simp only [Prod.mk.sizeOf_spec] at hlt
      simp only [Tree.map.sizeOf_spec]
      omega

namespace Number

/-- Real numbers are written positionally from `0.00001` up to below `1e+16`, always with a point or
an exponent, and an exponent always has a sign. -/
def layout : Decimal.Layout := ⟨16, 4, true⟩

/-- A number as JSON text. -/
def text : Number → List Char
  | int value => Decimal.integerText value
  | real value => layout.text value

/-- Numeric equality within the integers and within the real numbers. -/
def same : Number → Number → Bool
  | int x, int y => x == y
  | real x, real y => x.same y
  | _, _ => false

end Number

namespace Tree

/-- The value under a key of a map. -/
def field? (key : String) : Tree → Option Tree
  | map fields => Keyed.find? key fields
  | _ => none

/-- The string that a tree is. -/
def string? : Tree → Option String
  | str value => some value
  | _ => none

/-! ## Equality -/

mutual

/-- Equality of values. -/
def same : Tree → Tree → Bool
  | null, null => true
  | bool a, bool b => a == b
  | num a, num b => a.same b
  | str a, str b => a == b
  | seq as, seq bs => sameItems as bs
  | map as, map bs => sameFields as bs
  | _, _ => false
termination_by structural t => t

/-- Equality of sequences, item by item. -/
def sameItems : List Tree → List Tree → Bool
  | [], [] => true
  | a :: as, b :: bs => same a b && sameItems as bs
  | _, _ => false
termination_by structural ts => ts

/-- Equality of maps, field by field: their keys are in order. -/
def sameFields : List (String × Tree) → List (String × Tree) → Bool
  | [], [] => true
  | (k, a) :: as, (l, b) :: bs => k == l && same a b && sameFields as bs
  | _, _ => false
termination_by structural fs => fs

end

mutual

/-- Decides whether two trees are identical. -/
def decEq : (a b : Tree) → Decidable (a = b)
  | null, b => by
    cases b with
    | null => exact isTrue rfl
    | _ => exact isFalse nofun
  | bool x, b => by
    cases b with
    | bool y => exact decidable_of_iff (x = y) (by simp)
    | _ => exact isFalse nofun
  | num x, b => by
    cases b with
    | num y => exact decidable_of_iff (x = y) (by simp)
    | _ => exact isFalse nofun
  | str x, b => by
    cases b with
    | str y => exact decidable_of_iff (x = y) (by simp)
    | _ => exact isFalse nofun
  | seq x, b => by
    cases b with
    | seq y => exact @decidable_of_iff _ (x = y) (by simp) (decEqItems x y)
    | _ => exact isFalse nofun
  | map x, b => by
    cases b with
    | map y => exact @decidable_of_iff _ (x = y) (by simp) (decEqFields x y)
    | _ => exact isFalse nofun
termination_by structural t => t

/-- Decides whether two lists of trees are identical. -/
def decEqItems : (as bs : List Tree) → Decidable (as = bs)
  | [], [] => isTrue rfl
  | [], _ :: _ => isFalse nofun
  | _ :: _, [] => isFalse nofun
  | a :: as, b :: bs =>
    match decEq a b, decEqItems as bs with
    | isTrue h, isTrue hs => isTrue (by rw [h, hs])
    | isFalse h, _ => isFalse fun e => h (List.cons.inj e).1
    | _, isFalse hs => isFalse fun e => hs (List.cons.inj e).2
termination_by structural ts => ts

/-- Decides whether two lists of fields are identical. -/
def decEqFields : (as bs : List (String × Tree)) → Decidable (as = bs)
  | [], [] => isTrue rfl
  | [], _ :: _ => isFalse nofun
  | _ :: _, [] => isFalse nofun
  | (k, a) :: as, (l, b) :: bs =>
    match (inferInstance : Decidable (k = l)), decEq a b, decEqFields as bs with
    | isTrue hk, isTrue h, isTrue hs => isTrue (by rw [hk, h, hs])
    | isFalse hk, _, _ => isFalse fun e => hk (Prod.mk.inj (List.cons.inj e).1).1
    | _, isFalse h, _ => isFalse fun e => h (Prod.mk.inj (List.cons.inj e).1).2
    | _, _, isFalse hs => isFalse fun e => hs (List.cons.inj e).2
termination_by structural fs => fs

end

instance : DecidableEq Tree := decEq

/-! ## Text -/

mutual

/-- A tree as JSON text without blanks. -/
def compactText : Tree → List Char
  | null => "null".toList
  | bool true => "true".toList
  | bool false => "false".toList
  | num value => value.text
  | str value => (Text.Quoted.quote value).toList
  | seq items => '[' :: compactItems true items
  | map fields => '{' :: compactFields true fields
termination_by structural t => t

/-- The items of a sequence and its closing bracket. -/
def compactItems (first : Bool) : List Tree → List Char
  | [] => [']']
  | t :: ts => (if first then [] else [',']) ++ compactText t ++ compactItems false ts
termination_by structural ts => ts

/-- The fields of a map and its closing brace. -/
def compactFields (first : Bool) : List (String × Tree) → List Char
  | [] => ['}']
  | (k, t) :: fs =>
    (if first then [] else [',']) ++ (Text.Quoted.quote k).toList ++ ':' :: compactText t ++
      compactFields false fs
termination_by structural fs => fs

end

/-- A tree as JSON text without blanks. -/
def compact (t : Tree) : String := String.ofList t.compactText

/-- A line break followed by two blanks for each level. -/
def lineAt (level : Nat) : List Char := '\n' :: List.replicate (2 * level) ' '

mutual

/-- A tree as JSON text with an item or a field to a line. -/
def prettyText (level : Nat) : Tree → List Char
  | seq (t :: ts) => '[' :: prettyItems (level + 1) true (t :: ts) ++ lineAt level ++ [']']
  | map (f :: fs) => '{' :: prettyFields (level + 1) true (f :: fs) ++ lineAt level ++ ['}']
  | t => compactText t
termination_by structural t => t

/-- The lines of the items of a sequence. -/
def prettyItems (level : Nat) (first : Bool) : List Tree → List Char
  | [] => []
  | t :: ts =>
    (if first then [] else [',']) ++ lineAt level ++ prettyText level t ++
      prettyItems level false ts
termination_by structural ts => ts

/-- The lines of the fields of a map. -/
def prettyFields (level : Nat) (first : Bool) : List (String × Tree) → List Char
  | [] => []
  | (k, t) :: fs =>
    (if first then [] else [',']) ++ lineAt level ++ (Text.Quoted.quote k).toList ++
      ':' :: ' ' :: prettyText level t ++ prettyFields level false fs
termination_by structural fs => fs

end

/-- A tree as JSON text over several lines. -/
def pretty (t : Tree) : String := String.ofList (prettyText 0 t)

end Tree

end EventSchema
