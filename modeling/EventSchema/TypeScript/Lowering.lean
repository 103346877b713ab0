import EventSchema.Inheritance
import EventSchema.TypeScript.Type

/-!
# Schemas as types

The type of the values that a schema accepts, as far as types can say it.

* `literalType` — the type of one value;
* `Parts` — the types of the schemas within a schema;
* `Parts.type` — the rules: `const`, `enum`, `oneOf`, `anyOf`, `allOf`, `type`, and else the shape
  that `properties` or `items` suggest, whichever comes first;
* `lower` — the type of a schema.

A schema that says nothing that a type can say is `unknown`.
-/

namespace EventSchema.TypeScript

open TypeExpr

/-- The type of one value. Sequences and maps have none of their own. -/
def literalType : Tree → TypeExpr
  | .null => null
  | .seq _ => unknown
  | .map _ => unknown
  | value => .literal value.compact

/-- A declared property: its name, its description and its type. -/
structure Declared where
  name : String
  doc : Option String
  type : TypeExpr

/-- The types of the schemas within a schema. -/
structure Parts where
  oneOf : Option (List TypeExpr)
  anyOf : Option (List TypeExpr)
  allOf : Option (List TypeExpr)
  /-- the type of the items of a sequence -/
  items : Option TypeExpr
  /-- the properties, in the order of their names -/
  properties : List Declared
  /-- the type of the values under other keys -/
  extra : Option TypeExpr

/-- The sequence under a key. -/
def listAt? (key : String) (fields : Fields) : Option (List Tree) :=
  match Keyed.find? key fields with
  | some (.seq items) => some items
  | _ => none

/-- The names that must be present. -/
def requiredNames (fields : Fields) : List String :=
  ((listAt? requiredKey fields).getD []).filterMap Tree.string?

namespace Parts

/-- The declared properties with their types. -/
def members (parts : Parts) (fields : Fields) : List (Member × TypeExpr) :=
  parts.properties.map fun d => (⟨d.name, !(requiredNames fields).contains d.name, d.doc⟩, d.type)

/-- The type of the values under all keys, given that of the keys that are not declared: a declared
property has to fit, and so has one that is not there. -/
def indexType (extra : TypeExpr) (members : List (Member × TypeExpr)) : TypeExpr :=
  unionOf (extra :: members.map (·.2) ++ if members.any (·.1.optional) then [undefined] else [])

/-- The type of objects. Keys that are not declared are allowed unless the schema says otherwise. -/
def objectType (parts : Parts) (fields : Fields) : TypeExpr :=
  let members := parts.members fields
  match Keyed.find? "additionalProperties" fields with
  | some (.bool false) => .object members none
  | some (.bool true) => .object members (some unknown)
  | none => .object members (some unknown)
  | some _ => .object members (some (indexType (parts.extra.getD unknown) members))

/-- The type that a name of the schema language stands for. -/
def typeNamed (parts : Parts) (fields : Fields) (name : String) : TypeExpr :=
  if name = "string" then .named "string"
  else if name = "integer" then .named "number"
  else if name = "number" then .named "number"
  else if name = "boolean" then .named "boolean"
  else if name = "null" then null
  else if name = "array" then .array (parts.items.getD unknown)
  else if name = "object" then parts.objectType fields
  else unknown

/-- The type that one entry of a list of names stands for. -/
def typeOfEntry (parts : Parts) (fields : Fields) : Tree → TypeExpr
  | .str name => parts.typeNamed fields name
  | _ => unknown

/-- The type that `type` stands for, or the shape that the other keys suggest. -/
def shapeType (parts : Parts) (fields : Fields) : TypeExpr :=
  match Keyed.find? "type" fields with
  | some (.str name) => parts.typeNamed fields name
  | some (.seq names) => unionOf (names.map (parts.typeOfEntry fields))
  | _ =>
    if Keyed.has propertiesKey fields then parts.objectType fields
    else if Keyed.has "items" fields then parts.typeNamed fields "array"
    else unknown

/-- The type of a schema that is a map. -/
def type (parts : Parts) (fields : Fields) : TypeExpr :=
  match Keyed.find? "const" fields, listAt? "enum" fields, parts.oneOf, parts.anyOf,
    parts.allOf with
  | some value, _, _, _, _ => literalType value
  | none, some values, _, _, _ => unionOf (values.map literalType)
  | none, none, some branches, _, _ => unionOf branches
  | none, none, none, some branches, _ => unionOf branches
  | none, none, none, none, some branches => intersectionOf branches
  | none, none, none, none, none => parts.shapeType fields

end Parts

mutual

/-- The type of a schema. -/
def lower : Tree → TypeExpr
  | .map fields =>
    Parts.type
      { oneOf := branchesAt "oneOf" fields
        anyOf := branchesAt "anyOf" fields
        allOf := branchesAt "allOf" fields
        items := itemsType fields
        properties := declaredIn fields
        extra := typeAt "additionalProperties" fields } fields
  | .bool false => never
  | _ => unknown
termination_by structural t => t

/-- The types of some schemas. -/
def lowerEach : List Tree → List TypeExpr
  | [] => []
  | t :: ts => lower t :: lowerEach ts
termination_by structural ts => ts

/-- The types of the schemas in the sequence under a key. -/
def branchesAt (key : String) : List (String × Tree) → Option (List TypeExpr)
  | [] => none
  | (k, t) :: fields =>
    if k = key then
      match t with
      | .seq items => some (lowerEach items)
      | _ => none
    else branchesAt key fields
termination_by structural fs => fs

/-- The type of the schema under a key. -/
def typeAt (key : String) : List (String × Tree) → Option TypeExpr
  | [] => none
  | (k, t) :: fields => if k = key then some (lower t) else typeAt key fields
termination_by structural fs => fs

/-- The type of the items of a sequence; of several schemas any may apply. -/
def itemsType : List (String × Tree) → Option TypeExpr
  | [] => none
  | (k, t) :: fields =>
    if k = "items" then
      match t with
      | .seq items => some (unionOf (lowerEach items))
      | item => some (lower item)
    else itemsType fields
termination_by structural fs => fs

/-- The properties that a schema declares. -/
def declaredIn : List (String × Tree) → List Declared
  | [] => []
  | (k, t) :: fields =>
    if k = propertiesKey then
      match t with
      | .map properties => declareEach properties
      | _ => []
    else declaredIn fields
termination_by structural fs => fs

/-- Properties from their names and schemas. -/
def declareEach : List (String × Tree) → List Declared
  | [] => []
  | (name, t) :: properties =>
    ⟨name, (t.field? "description").bind Tree.string?, lower t⟩ :: declareEach properties
termination_by structural ps => ps

end

end EventSchema.TypeScript
