import EventSchema.Text.Blank
import EventSchema.Text.Lines

/-!
# Comments

The two kinds of comments of a generated module.

* `docComment` — a block comment in front of a declaration; text that would close the comment is
  broken up by a backslash, and a text that is all blank gives no comment;
* `lineComments` — a comment for each line of a text.
-/

namespace EventSchema.TypeScript

open Text

/-- The blanks in front of a line. -/
def pad (indent : Nat) : List Char := List.replicate (2 * indent) ' '

/-- A text with a backslash in every pair of characters that closes a comment. -/
def breakCloser : List Char → List Char
  | '*' :: '/' :: rest => '*' :: '\\' :: '/' :: breakCloser rest
  | c :: rest => c :: breakCloser rest
  | [] => []

/-- One line of a block comment. -/
def docLine (indent : Nat) (line : List Char) : List Char :=
  match trimEnd line with
  | [] => pad indent ++ " *\n".toList
  | text => pad indent ++ " * ".toList ++ text ++ ['\n']

/-- A block comment with its line break. A single line stands between the two ends. -/
def docComment (indent : Nat) (text : List Char) : List Char :=
  match lines (breakCloser (trim text)) with
  | [] => []
  | [line] => pad indent ++ "/** ".toList ++ line ++ " */\n".toList
  | many =>
    pad indent ++ "/**\n".toList ++ many.flatMap (docLine indent) ++ pad indent ++ " */\n".toList

/-- One line as a comment. -/
def lineComment (line : List Char) : List Char :=
  match trimEnd line with
  | [] => "//\n".toList
  | text => "// ".toList ++ text ++ ['\n']

/-- The lines of a text as comments. -/
def lineComments (text : List Char) : List Char := (lines text).flatMap lineComment

end EventSchema.TypeScript
