import EventSchema.Settings

/-!
# Settings files

A settings file is a YAML map with at most the four keys of a layer, each at most once. A scalar
stands for its text however it is written, so that a number or a boolean may be a pattern; a plain
scalar that spells null leaves its setting open.

* `Layer.ofDocument?` — the layer of a document;
* `Layer.ofText` — the layer of a file, which is empty if the file is blank.
-/

namespace EventSchema.Settings

open Markup.Yaml

/-- The text of a scalar. An alias is followed, given the number of aliases followed before. -/
def scalarText? (doc : Document) (jumps : Nat) (node : Node Nat) : Option (String × Nat) := do
  match ← doc.follow? jumps node with
  | (.scalar _ _ text _, jumps) => some (text, jumps)
  | _ => none

/-- Whether a scalar leaves its setting open. The tag of null demands a text that spells null. -/
def leavesOpen? (tag : Option Tag) (text : String) (style : Style) : Option Bool :=
  if style ≠ .plain then some false
  else
    match tag with
    | none => some (text = "" || CoreSchema.isNull text)
    | some .null => if CoreSchema.isNull text then some true else none
    | some _ => some false

/-- Whether a scalar may be a boolean: it is plain, or a literal block with the tag of booleans. -/
def mayBeBool (tag : Option Tag) (style : Style) : Bool :=
  style = .plain || (style = .literal && tag = some .bool)

namespace Layer

/-- A layer with one setting more. -/
def set? (layer : Layer) (key : String) (tag : Option Tag) (text : String) (style : Style) :
    Option Layer := do
  let value := if ← leavesOpen? tag text style then none else some text
  if key = "pattern" then return { layer with pattern := value }
  else if key = "output" then return { layer with output := value }
  else if key = "banner" then return { layer with banner := value }
  else if key = "include_event_name" then
    match value with
    | none => return { layer with includeEventName := none }
    | some text =>
      if mayBeBool tag style then
        return { layer with includeEventName := some (← CoreSchema.bool? text) }
      else none
  else none

/-- The layer of the entries of a map. -/
def ofEntries? (doc : Document) :
    List (Node Nat × Node Nat) → (jumps : Nat) → (seen : List String) → Layer → Option Layer
  | [], _, _, layer => some layer
  | (k, v) :: entries, jumps, seen, layer => do
    let (key, jumps) ← scalarText? doc jumps k
    if seen.contains key then none
    match ← doc.follow? jumps v with
    | (.scalar _ tag text style, jumps) =>
      ofEntries? doc entries jumps (key :: seen) (← layer.set? key tag text style)
    | _ => none

/-- The layer of a document. A document without content is the empty layer. -/
def ofDocument? (doc : Document) : Option Layer :=
  match doc.root with
  | .map _ _ entries => ofEntries? doc entries 0 [] empty
  | .scalar _ _ "" .plain => some empty
  | _ => none

/-- The layer of a file. -/
def ofText (file text : String) : Except SettingsError Layer :=
  if Text.trim text.toList = [] then .ok empty
  else
    match (Document.ofText? text).bind ofDocument? with
    | some layer => .ok layer
    | none => .error (.malformed file)

end Layer

end EventSchema.Settings
