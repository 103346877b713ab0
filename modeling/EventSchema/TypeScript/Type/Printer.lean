import EventSchema.TypeScript.Comment
import EventSchema.TypeScript.Name
import EventSchema.TypeScript.Type

/-!
# Types as text

A type as it is written. The indent is that of the line on which the type starts: the members of an
object stand one level deeper, a line to each, and its closing brace stands at the indent itself.
-/

namespace EventSchema.TypeScript

/-- Whether a type needs parentheses as a member of an intersection. -/
def TypeExpr.isUnion : TypeExpr → Bool
  | .union _ => true
  | _ => false

/-- A text in parentheses where they are needed. -/
def parenthesized (needed : Bool) (text : List Char) : List Char :=
  if needed then '(' :: text ++ [')'] else text

/-- A line of an object type: a key and a type. -/
def memberLine (indent : Nat) (key type : List Char) : List Char :=
  pad indent ++ key ++ ": ".toList ++ type ++ ";\n".toList

/-- The key of a property, with a question mark if the property is optional. -/
def Member.key (m : Member) : List Char :=
  (propertyKey m.name).toList ++ if m.optional then ['?'] else []

/-- The comment of a property. -/
def Member.comment (indent : Nat) (m : Member) : List Char :=
  match m.doc with
  | some text => docComment indent text.toList
  | none => []

/-- The key that stands for all others. -/
def indexKey : List Char := "[key: string]".toList

namespace TypeExpr

mutual

/-- A type as it is written. -/
def render (indent : Nat) : TypeExpr → List Char
  | named name => name.toList
  | literal text => text.toList
  | array item => "Array<".toList ++ render indent item ++ ['>']
  | object properties index =>
    if properties.isEmpty && index.isNone then "\x7b\x7d".toList
    else
      "\x7b\n".toList ++ renderProperties (indent + 1) properties ++
        renderIndex (indent + 1) index ++ pad indent ++ ['\x7d']
  | union members => " | ".toList.intercalate (renderEach indent members)
  | intersection members => " & ".toList.intercalate (renderConjuncts indent members)
termination_by structural t => t

/-- The members of a union. -/
def renderEach (indent : Nat) : List TypeExpr → List (List Char)
  | [] => []
  | t :: ts => render indent t :: renderEach indent ts
termination_by structural ts => ts

/-- The members of an intersection. -/
def renderConjuncts (indent : Nat) : List TypeExpr → List (List Char)
  | [] => []
  | t :: ts => parenthesized t.isUnion (render indent t) :: renderConjuncts indent ts
termination_by structural ts => ts

/-- The lines of the declared properties of an object. -/
def renderProperties (indent : Nat) : List (Member × TypeExpr) → List Char
  | [] => []
  | (m, t) :: properties =>
    m.comment indent ++ memberLine indent m.key (render indent t) ++
      renderProperties indent properties
termination_by structural ps => ps

/-- The line for the other keys of an object. -/
def renderIndex (indent : Nat) : Option TypeExpr → List Char
  | none => []
  | some t => memberLine indent indexKey (render indent t)
termination_by structural i => i

end

/-- The lines of an object type. -/
def renderMembers (indent : Nat) (properties : List (Member × TypeExpr))
    (index : Option TypeExpr) : List Char :=
  renderProperties indent properties ++ renderIndex indent index

/-- A type as text. -/
def text (indent : Nat) (t : TypeExpr) : String := String.ofList (t.render indent)

end TypeExpr

end EventSchema.TypeScript
