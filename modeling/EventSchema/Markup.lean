import EventSchema.Markup.Json
import EventSchema.Markup.Yaml.Value

/-!
# Markup

The two markups that a schema document may be written in, and the one tree that both are read as.

* `Format`, `Format.ofExtension` — JSON for the extension `json`, YAML for everything else;
* `Markup.parse` — the tree of a text, or why there is none.
-/

namespace EventSchema

/-- The markup of a document. -/
inductive Format where
  | json
  | yaml
  deriving DecidableEq, Repr

namespace Format

/-- The format that a file extension stands for. Case does not matter. -/
def ofExtension (extension? : Option String) : Format :=
  match extension? with
  | some extension => if extension.toList.map Char.toLower = "json".toList then json else yaml
  | none => yaml

/-- The name in messages. -/
def label : Format → String
  | json => "JSON"
  | yaml => "YAML"

end Format

/-- Why a text is no schema tree. -/
inductive ParseError where
  /-- the text is not well-formed -/
  | malformed (format : Format)
  /-- the text is well-formed YAML, but no tree -/
  | unrepresentable (reason : Markup.Yaml.Unrepresentable)

/-- The text of an error. -/
def ParseError.message : ParseError → String
  | malformed format => "invalid " ++ format.label
  | unrepresentable reason => "invalid " ++ Format.yaml.label ++ ": " ++ reason.message

namespace Markup

/-- The tree that a text spells. -/
def parse (format : Format) (text : String) : Except ParseError Tree :=
  match format with
  | .json =>
    match Json.parse? text with
    | some tree => .ok tree
    | none => .error (.malformed .json)
  | .yaml =>
    match (Yaml.Document.ofText? text).bind Yaml.Value.ofDocument? with
    | some value => value.tree.mapError .unrepresentable
    | none => .error (.malformed .yaml)

end Markup

end EventSchema
