import EventSchema.Path
import EventSchema.Tree

/-!
# References

A map with a string under `$ref` is a marker: it stands for the document that the string names. What
else the map holds are siblings of the marker.

* `Shape`, `Tree.shape` — a node as a marker, an heir, a map, a sequence or a scalar;
* `Tree.rewriteReferences` — the tree with each target rewritten;
* `Tree.targets`, `Tree.references` — the targets as they occur, and in order, each once;
* `Tree.substitute` — the tree with markers replaced by what they stand for.

All three walk through siblings as well.
-/

namespace EventSchema

/-- The key of a marker. -/
def referenceKey : String := "$ref"

/-- The key of inheritance. -/
def extendsKey : String := "extends"

/-- The target that one field makes of its map. -/
def targetOf? (key : String) (value : Tree) : Option String :=
  if key = referenceKey then value.string? else none

/-- The target of the marker that has some fields. -/
def Fields.target? (fields : Fields) : Option String := fields.findSome? fun e => targetOf? e.1 e.2

/-- What a node is to composition. -/
inductive Shape where
  /-- a marker, with all its fields -/
  | reference (target : String) (fields : Fields)
  /-- a map that inherits -/
  | heir (fields : Fields)
  | map (fields : Fields)
  | sequence (items : List Tree)
  | scalar (value : Tree)
  deriving DecidableEq

namespace Tree

/-- A marker is a marker even if it inherits. -/
def shape : Tree → Shape
  | map fields =>
    match Fields.target? fields with
    | some target => .reference target fields
    | none => if Keyed.has extendsKey fields then .heir fields else .map fields
  | seq items => .sequence items
  | value => .scalar value

/-- The target of a marker. -/
def target? : Tree → Option String
  | map fields => Fields.target? fields
  | _ => none

mutual

/-- The tree with the target of every marker rewritten. -/
def rewriteReferences (f : String → String) : Tree → Tree
  | seq items => seq (rewriteItems f items)
  | map fields => map (rewriteFields f fields)
  | value => value
termination_by structural t => t

/-- The same for the items of a sequence. -/
def rewriteItems (f : String → String) : List Tree → List Tree
  | [] => []
  | t :: ts => rewriteReferences f t :: rewriteItems f ts
termination_by structural ts => ts

/-- The same for the fields of a map. -/
def rewriteFields (f : String → String) : List (String × Tree) → List (String × Tree)
  | [] => []
  | (k, t) :: fields =>
    (k, match targetOf? k t with
      | some target => str (f target)
      | none => rewriteReferences f t) :: rewriteFields f fields
termination_by structural fs => fs

end

/-- The tree with every target read from a directory. -/
def resolveReferences (directory : String) (t : Tree) : Tree :=
  t.rewriteReferences (Path.joinReference directory)

mutual

/-- The targets of all markers, as they occur. -/
def targets : Tree → List String
  | seq items => itemTargets items
  | map fields => fieldTargets fields
  | _ => []
termination_by structural t => t

/-- The same for the items of a sequence. -/
def itemTargets : List Tree → List String
  | [] => []
  | t :: ts => targets t ++ itemTargets ts
termination_by structural ts => ts

/-- The same for the fields of a map. -/
def fieldTargets : List (String × Tree) → List String
  | [] => []
  | (k, t) :: fields =>
    (match targetOf? k t with
      | some target => [target]
      | none => targets t) ++ fieldTargets fields
termination_by structural fs => fs

end

/-- The targets of all markers in order, each once. -/
def references (t : Tree) : List String := sortOnce (fun s t => s < t) t.targets

mutual

/-- The tree with every marker replaced whose target has a content. The content is taken as it is,
and the siblings of its marker are dropped; the siblings of other markers are walked through. -/
def substitute (content? : String → Option Tree) : Tree → Tree
  | seq items => seq (substituteItems content? items)
  | map fields =>
    match (Fields.target? fields).bind content? with
    | some content => content
    | none => map (substituteFields content? fields)
  | value => value
termination_by structural t => t

/-- The same for the items of a sequence. -/
def substituteItems (content? : String → Option Tree) : List Tree → List Tree
  | [] => []
  | t :: ts => substitute content? t :: substituteItems content? ts
termination_by structural ts => ts

/-- The same for the fields of a map. -/
def substituteFields (content? : String → Option Tree) :
    List (String × Tree) → List (String × Tree)
  | [] => []
  | (k, t) :: fields => (k, substitute content? t) :: substituteFields content? fields
termination_by structural fs => fs

end

end Tree

end EventSchema
