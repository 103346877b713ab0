import EventSchema.Reference

/-!
# Inheritance

A map with `extends` inherits from its bases. The bases, in order, and then the map itself are
layers that are laid over each other.

* `overlay` — one layer over another: declared properties and lists of required names are joined,
  and for every other key the upper layer counts;
* `baseLayers`, `Fields.inherit` — the layers below a map, and the map with all of them joined;
* `Tree.inherit` — the same for a document.

What identifies a base (its title, its description and its `$id`) is not inherited.
-/

namespace EventSchema

/-- The key of an event's name. -/
def titleKey : String := "title"

/-- The key of the declared properties of a map schema. -/
def propertiesKey : String := "properties"

/-- The key of the names that must be present. -/
def requiredKey : String := "required"

/-- The keys that say what a document is and not what it describes. -/
def identityKeys : List String := [titleKey, "description", "$id"]

/-- What is wrong with a base. -/
inductive BaseFault where
  /-- the base is a marker -/
  | marker (target : String)
  /-- the base is no map -/
  | notMap (found : Tree)
  deriving DecidableEq

/-- What a value is called in messages. -/
def Tree.kindName : Tree → String
  | .null => "null"
  | .bool _ => "a boolean"
  | .num _ => "a number"
  | .str _ => "a string"
  | .seq _ => "a sequence"
  | .map _ => "a map"

/-- The text of a fault. -/
def BaseFault.message : BaseFault → String
  | marker target => "base " ++ target ++ " was not substituted"
  | notMap found => "expected a schema map, found " ++ found.kindName

/-- A list with the items of another that are not in it yet. -/
def Tree.joinItems (lower upper : List Tree) : List Tree :=
  upper.foldl (fun acc t => if acc.any (·.same t) then acc else acc ++ [t]) lower

/-- The value under a key from the values of two layers. -/
def combine (key : String) (lower? : Option Tree) (upper : Tree) : Tree :=
  match lower?, upper with
  | some (.map lower), .map upper =>
    if key = propertiesKey then .map (Keyed.insertAll lower upper) else .map upper
  | some (.seq lower), .seq upper =>
    if key = requiredKey then .seq (Tree.joinItems lower upper) else .seq upper
  | _, upper => upper

/-- One layer over another. -/
def overlay (lower upper : Fields) : Fields :=
  upper.foldl (fun acc e => Keyed.insert e.1 (combine e.1 (Keyed.find? e.1 acc) e.2) acc) lower

/-- Layers over each other, the first one at the bottom. -/
def overlayAll (layers : List Fields) : Fields := layers.foldl overlay []

/-- A map without what identifies it. -/
def anonymous (fields : Fields) : Fields := fields.filter fun e => !identityKeys.contains e.1

/-- A map over the layers below it; without `extends` there are none, and the map stays as it is. -/
def joinLayers (fields : Fields) : Option (List Fields) → Fields
  | none => fields
  | some layers => overlayAll (layers ++ [Keyed.erase extendsKey fields])

mutual

/-- The layers below the map with some fields, if it has `extends`: one for each base. A base that
is not a list is the only one. -/
def baseLayers : List (String × Tree) → Except BaseFault (Option (List Fields))
  | [] => .ok none
  | (k, t) :: fields =>
    if k = extendsKey then
      match t with
      | .seq items => do return some (← layersOf items)
      | base => do return some [← layerOf base]
    else baseLayers fields
termination_by structural fs => fs

/-- The layer that a base is: its own bases joined, and without what identifies it. -/
def layerOf : Tree → Except BaseFault Fields
  | .map fields =>
    match Fields.target? fields with
    | some target => .error (.marker target)
    | none => do return anonymous (joinLayers fields (← baseLayers fields))
  | found => .error (.notMap found)
termination_by structural t => t

/-- The layers of some bases. -/
def layersOf : List Tree → Except BaseFault (List Fields)
  | [] => .ok []
  | t :: ts => do
    let layer ← layerOf t
    return layer :: (← layersOf ts)
termination_by structural ts => ts

end

/-- The fields of a map with everything it inherits. -/
def Fields.inherit (fields : Fields) : Except BaseFault Fields := do
  return joinLayers fields (← baseLayers fields)

/-- A document with everything it inherits. Only a map inherits. -/
def Tree.inherit : Tree → Except BaseFault Tree
  | .map fields => do return .map (← Fields.inherit fields)
  | t => .ok t

end EventSchema
