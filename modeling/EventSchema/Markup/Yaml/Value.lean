import EventSchema.Markup.Yaml.CoreSchema
import EventSchema.Markup.Yaml.Document
import EventSchema.Text.Printable
import EventSchema.Tree

/-!
# YAML values

What a YAML document means, and the schema tree that it is if it has one.

* `Value` — the values of YAML, among them the infinities, tagged values and maps with any keys;
* `Document.value?` — the value of a document: aliases are followed and scalars are read;
* `Value.tree` — the value as a schema tree, which has finite numbers and string keys only.
-/

namespace EventSchema.Markup.Yaml

/-- A value of a YAML document. The tag of a tagged value stands without its exclamation mark. -/
inductive Value where
  | null
  | bool (value : Bool)
  | int (value : Int)
  | real (value : Real)
  | str (value : String)
  | seq (items : List Value)
  | map (entries : List (Value × Value))
  | tagged (tag : String) (value : Value)

namespace Value

mutual

/-- Equality of values. The order of the entries of a map does not count. -/
def same : Value → Value → Bool
  | null, null => true
  | bool a, bool b => a == b
  | int a, int b => a == b
  | real a, real b => a.same b
  | str a, str b => a == b
  | seq as, seq bs => sameItems as bs
  | map as, map bs => as.length == bs.length && entriesWithin as bs
  | tagged t a, tagged u b => t == u && same a b
  | _, _ => false
termination_by structural v => v

/-- Equality of sequences, item by item. -/
def sameItems : List Value → List Value → Bool
  | [], [] => true
  | a :: as, b :: bs => same a b && sameItems as bs
  | _, _ => false
termination_by structural vs => vs

/-- Whether each entry of one map is an entry of another. -/
def entriesWithin : List (Value × Value) → List (Value × Value) → Bool
  | [], _ => true
  | (k, a) :: as, bs => bs.any (fun e => same k e.1 && same a e.2) && entriesWithin as bs
termination_by structural es => es

end

/-! ## Text -/

/-- Real numbers in keys are written as in trees, but a positive exponent has no sign. -/
def layout : Decimal.Layout := ⟨16, 4, false⟩

/-- A real number in a key. -/
def realText : Real → String
  | .finite x => String.ofList (layout.text x)
  | .infinite false => ".inf"
  | .infinite true => "-.inf"
  | .nan => ".nan"

/-- An integer in decimal. -/
def integerText (n : Int) : String := String.ofList (Decimal.integerText n)

/-- The key of a tree that a value stands for: a string, a number or a boolean. -/
def key? : Value → Option String
  | str s => some s
  | int n => some (integerText n)
  | real x => some (realText x)
  | bool b => some (if b then "true" else "false")
  | _ => none

mutual

/-- A value as messages show it. -/
def shown : Value → String
  | null => "Null"
  | bool b => "Bool(" ++ (if b then "true" else "false") ++ ")"
  | int n => "Number(" ++ integerText n ++ ")"
  | real x => "Number(" ++ realText x ++ ")"
  | str s => "String(" ++ Text.shown s ++ ")"
  | seq items => "Sequence [" ++ shownItems true items ++ "]"
  | map entries => "Mapping \x7b" ++ shownEntries true entries ++ "\x7d"
  | tagged tag value => "TaggedValue \x7b tag: !" ++ tag ++ ", value: " ++ shown value ++ " \x7d"
termination_by structural v => v

/-- The items of a sequence between its brackets. -/
def shownItems (first : Bool) : List Value → String
  | [] => ""
  | v :: vs => (if first then "" else ", ") ++ shown v ++ shownItems false vs
termination_by structural vs => vs

/-- The entries of a map between its braces. Strings, numbers and booleans stand bare as keys. -/
def shownEntries (first : Bool) : List (Value × Value) → String
  | [] => ""
  | (k, v) :: entries =>
    let key := match k with
      | str s => Text.shown s
      | _ => (key? k).getD (shown k)
    (if first then "" else ", ") ++ key ++ ": " ++ shown v ++ shownEntries false entries
termination_by structural es => es

end

/-! ## Reading -/

/-- An integer within the range of signed or unsigned 64 bits. -/
def ofInteger? (n : Int) : Option Value :=
  if -(Nat.pow 2 63 : Int) ≤ n ∧ n < Nat.pow 2 64 then some (int n) else none

/-- The value of a plain scalar without a tag. -/
def ofPlain? (text : String) : Option Value :=
  let cs := text.toList
  if text = "" || CoreSchema.isNull text then some null
  else
    match CoreSchema.bool? text, CoreSchema.integer? cs with
    | some b, _ => some (bool b)
    | none, some n => ofInteger? n
    | none, none =>
      if CoreSchema.hasLeadingZero cs then some (str text)
      else some (((CoreSchema.real? cs).map real).getD (str text))

/-- The value of a scalar whose tag does not matter. -/
def ofUntagged? (text : String) (style : Style) : Option Value :=
  if style = .plain then ofPlain? text else some (str text)

/-- The value of a scalar. The tag of a core type demands a text of its form. -/
def ofScalar? (tag : Option Tag) (text : String) (style : Style) : Option Value :=
  match tag with
  | none => ofUntagged? text style
  | some .nameless => ofUntagged? text style
  | some (.own name) => (ofUntagged? text style).map (tagged name)
  | some .bool => (CoreSchema.bool? text).map bool
  | some .int => (CoreSchema.integer? text.toList).bind ofInteger?
  | some .real => (CoreSchema.real? text.toList).map real
  | some .null => if CoreSchema.isNull text then some null else none
  | some .foreign => some (str text)

/-- The value of a collection. -/
def withTag (tag : Option Tag) (value : Value) : Value :=
  match tag with
  | some (.own name) => tagged name value
  | _ => value

/-- The value of a node that holds at most so many collections within each other, given the number
of aliases followed before. Equal keys in one map are refused. -/
def ofNode? (doc : Document) (depth : Nat) (node : Node Nat) : StateT Nat Option Value := do
  match ← (doc.follow? · node), depth with
  | .scalar _ tag text style, _ => ofScalar? tag text style
  | .seq _ tag items, depth + 1 => do
    let items ← items.mapM (ofNode? doc depth)
    return withTag tag (seq items)
  | .map _ tag entries, depth + 1 => do
    let entries ← entries.foldlM (fun found (k, v) => do
      let k ← ofNode? doc depth k
      if found.any fun e => e.1.same k then failure
      let v ← ofNode? doc depth v
      return found ++ [(k, v)]) []
    return withTag tag (map entries)
  | _, _ => failure

/-- How many collections may be nested in each other. -/
def depthLimit : Nat := 128

/-- The value of a document. -/
def ofDocument? (doc : Document) : Option Value := do
  let (value, _) ← ofNode? doc depthLimit doc.root 0
  return value

end Value

/-! ## Trees -/

/-- Why a value is no schema tree. -/
inductive Unrepresentable where
  | notFinite (value : Real)
  | mapKey (key : Value)

/-- The text of a reason. -/
def Unrepresentable.message : Unrepresentable → String
  | notFinite (.infinite false) => "cannot represent float inf in JSON"
  | notFinite (.infinite true) => "cannot represent float -inf in JSON"
  | notFinite _ => "cannot represent float NaN in JSON"
  | mapKey key => "unsupported YAML map key type: " ++ key.shown

namespace Value

mutual

/-- The tree that a value is, its tags dropped. Of keys with the same text the last one counts. -/
def tree : Value → Except Unrepresentable Tree
  | null => .ok .null
  | bool b => .ok (.bool b)
  | int n => .ok (.num (.int n))
  | real (.finite x) => .ok (.num (.real x))
  | real x => .error (.notFinite x)
  | str s => .ok (.str s)
  | seq items => do return .seq (← trees items)
  | map entries => do return .map (← fields [] entries)
  | tagged _ value => tree value
termination_by structural v => v

/-- The trees of the items of a sequence. -/
def trees : List Value → Except Unrepresentable (List Tree)
  | [] => .ok []
  | v :: vs => do
    let t ← tree v
    return t :: (← trees vs)
termination_by structural vs => vs

/-- The fields of a map, added to those before them. -/
def fields (before : Fields) : List (Value × Value) → Except Unrepresentable Fields
  | [] => .ok before
  | (k, v) :: entries =>
    match key? k with
    | none => .error (.mapKey k)
    | some key => do
      let t ← tree v
      fields (Keyed.insert key t before) entries
termination_by structural es => es

end

end Value

end EventSchema.Markup.Yaml
