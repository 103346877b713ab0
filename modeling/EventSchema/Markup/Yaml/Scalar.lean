import EventSchema.Markup.Yaml.Source
import EventSchema.Text.Quoted

/-!
# YAML scalars

The text of a scalar from its presentation: which blanks and breaks between its words are kept, and
which are folded into one space.

* `Gap` — the blanks and breaks since the last word;
* `quoted?`, `plain?`, `block?` — the text of a scalar and where it ends.

Each function goes through the text character by character.
-/

namespace EventSchema.Markup.Yaml

/-- How a scalar is written. -/
inductive Style where
  | plain
  | singleQuoted
  | doubleQuoted
  | literal
  | folded
  deriving DecidableEq

/-- What stands between two words of a flow scalar. Characters stand in reverse. -/
inductive Gap where
  /-- nothing -/
  | empty
  /-- blanks on one line -/
  | blanks (found : List Char)
  /-- the first break, if it counts, and the breaks after it; blanks around breaks are dropped -/
  | breaks (first : Option Char) (more : List Char)

namespace Gap

/-- One blank more. -/
def addBlank : Gap → Char → Gap
  | empty, c => blanks [c]
  | blanks found, c => blanks (c :: found)
  | breaks first more, _ => breaks first more

/-- One break more. -/
def addBreak : Gap → Char → Gap
  | empty, c => breaks (some c) []
  | blanks _, c => breaks (some c) []
  | breaks first more, c => breaks first (c :: more)

/-- Whether the gap has a break. -/
def isBroken : Gap → Bool
  | breaks .. => true
  | _ => false

/-- Whether there is no gap. -/
def isEmpty : Gap → Bool
  | empty => true
  | _ => false

/-- Puts what the gap stands for in front of reversed text: a line feed alone is a space, and a line
feed before other breaks is dropped. -/
def onto : Gap → List Char → List Char
  | empty, acc => acc
  | blanks found, acc => found ++ acc
  | breaks (some '\n') [], acc => ' ' :: acc
  | breaks (some '\n') more, acc => more ++ acc
  | breaks (some c) more, acc => more ++ c :: acc
  | breaks none more, acc => more ++ acc

end Gap

/-- What one character after a backslash stands for. -/
inductive Escape where
  | char (c : Char)
  /-- a code point in as many hexadecimal digits -/
  | code (digits : Nat)

/-- The escapes of a double-quoted scalar. -/
def escape? : Char → Option Escape
  | '0' => some (.char '\x00')
  | 'a' => some (.char '\x07')
  | 'b' => some (.char '\x08')
  | 't' => some (.char '\t')
  | '\t' => some (.char '\t')
  | 'n' => some (.char '\n')
  | 'v' => some (.char '\x0b')
  | 'f' => some (.char '\x0c')
  | 'r' => some (.char '\r')
  | 'e' => some (.char '\x1b')
  | ' ' => some (.char ' ')
  | '"' => some (.char '"')
  | '/' => some (.char '/')
  | '\\' => some (.char '\\')
  | 'N' => some (.char '\u0085')
  | '_' => some (.char '\u00a0')
  | 'L' => some (.char '\u2028')
  | 'P' => some (.char '\u2029')
  | 'x' => some (.code 2)
  | 'u' => some (.code 4)
  | 'U' => some (.code 8)
  | _ => none

/-- Whether a number is the code point of a character. -/
def isScalarValue (n : Nat) : Bool := n < 0xD800 || (0xE000 ≤ n && n ≤ 0x10FFFF)

/-- What is read next in a quoted scalar. -/
inductive QuotedMode where
  /-- text, after a gap -/
  | text (gap : Gap)
  /-- the digits of a code point: how many are left, and the value of those read -/
  | code (left value : Nat)

/-- The text of a quoted scalar after its opening quote, and the cursor after the closing one. The
text read so far stands in reverse. -/
def quoted? (double : Bool) : List Char → Mark → List Char → QuotedMode → Option (String × Cursor)
  | [], _, _, _ => none
  | c :: rest, m, acc, .code left value =>
    match Text.Quoted.hexValue? c with
    | none => none
    | some d =>
      let value := value * 16 + d
      if left ≤ 1 then
        if isScalarValue value then
          quoted? double rest (m.next c) (Char.ofNat value :: acc) (.text .empty)
        else none
      else quoted? double rest (m.next c) acc (.code (left - 1) value)
  | c :: rest, m, acc, .text gap =>
    if isBlank c then quoted? double rest (m.next c) acc (.text (gap.addBlank c))
    else if isBreak c then quoted? double rest m.newLine acc (.text (gap.addBreak c))
    else if !gap.isEmpty && m.column == 0 && isDocumentMarker (c :: rest) then none
    else
      let acc := gap.onto acc
      if double then
        if c = '"' then some (String.ofList acc.reverse, ⟨rest, m.next c⟩)
        else if c = '\\' then
          match rest with
          | [] => none
          | e :: rest =>
            if isBreak e then quoted? double rest m.newLine acc (.text (.breaks none []))
            else
              match escape? e with
              | none => none
              | some (.char x) => quoted? double rest ((m.next c).next e) (x :: acc) (.text .empty)
              | some (.code digits) => quoted? double rest ((m.next c).next e) acc (.code digits 0)
        else quoted? double rest (m.next c) (c :: acc) (.text .empty)
      else if c = '\'' then
        match rest with
        | '\'' :: rest => quoted? double rest ((m.next c).next c) ('\'' :: acc) (.text .empty)
        | _ => some (String.ofList acc.reverse, ⟨rest, m.next c⟩)
      else quoted? double rest (m.next c) (c :: acc) (.text .empty)

/-- The brackets and the comma of flow collections. -/
def isFlowIndicator (c : Char) : Bool :=
  c = ',' || c = '[' || c = ']' || c = '\x7b' || c = '\x7d'

/-- Where a plain scalar ends. -/
structure PlainEnd where
  text : String
  cursor : Cursor
  /-- whether breaks were read after the last word -/
  broken : Bool

/-- The end of a plain scalar: its text in reverse, the gap behind it, and the cursor after that. -/
def PlainEnd.of (acc : List Char) (gap : Gap) (cursor : Cursor) : PlainEnd :=
  ⟨String.ofList acc.reverse, cursor, gap.isBroken⟩

/-- The text of a plain scalar, and the cursor after it and the gap behind it. In block context the
words stand at `indent` or to the right of it. -/
def plain? (flow : Bool) (indent : Int) : List Char → Mark → List Char → Gap → Option PlainEnd
  | [], m, acc, gap => some (.of acc gap ⟨[], m⟩)
  | c :: rest, m, acc, gap =>
    if isBlank c then
      if gap.isBroken && c == '\t' && (m.column : Int) < indent then none
      else plain? flow indent rest (m.next c) acc (gap.addBlank c)
    else if isBreak c then plain? flow indent rest m.newLine acc (gap.addBreak c)
    else if !gap.isEmpty && (!flow && (m.column : Int) < indent) then
      some (.of acc gap ⟨c :: rest, m⟩)
    else if !gap.isEmpty && ((m.column == 0 && isDocumentMarker (c :: rest)) || c == '#') then
      some (.of acc gap ⟨c :: rest, m⟩)
    else if flow && c == ':' && rest.head?.any fun d => d = '?' || isFlowIndicator d then none
    else if (c == ':' && startsBlank rest) || (flow && isFlowIndicator c) then
      some (.of acc gap ⟨c :: rest, m⟩)
    else plain? flow indent rest (m.next c) (c :: gap.onto acc) .empty

/-- What happens to the breaks at the end of a block scalar. -/
inductive Chomping where
  | strip
  | clip
  | keep
  deriving DecidableEq

/-- A block scalar read so far. Texts stand in reverse. -/
structure Block where
  acc : List Char
  /-- the break at the end of the last line of text -/
  leading : List Char
  /-- the breaks of the blank lines after it -/
  trailing : List Char
  /-- whether the last line of text starts with a blank -/
  leadingBlank : Bool
  /-- the indentation, 0 while it is not known -/
  indent : Nat
  /-- the greatest column reached by the spaces of a line so far -/
  widest : Nat

namespace Block

/-- Fixes the indentation: the widest blank start of a line, but more than that of the parent. -/
def settle (parent : Int) (b : Block) : Block :=
  if b.indent = 0 then { b with indent := max (max b.widest (parent + 1).toNat) 1 } else b

/-- Starts a line of text with a character: the break before it is kept, or folded. -/
def startLine (folds : Bool) (c : Char) (b : Block) : Block :=
  let folded := folds && b.leading == ['\n'] && !b.leadingBlank && !isBlank c
  let joined :=
    if folded then (if b.trailing.isEmpty then ' ' :: b.acc else b.acc) else b.leading ++ b.acc
  { b with
    acc := c :: (b.trailing ++ joined), leading := [], trailing := [], leadingBlank := isBlank c }

/-- The text of the whole scalar. -/
def finish (chomping : Chomping) (b : Block) : String :=
  let acc := if chomping = .strip then b.acc else b.leading ++ b.acc
  let acc := if chomping = .keep then b.trailing ++ acc else acc
  String.ofList acc.reverse

end Block

/-- The lines of a block scalar, and the cursor after them. In a line of text everything up to the
break belongs to the text; otherwise the indentation of the next line is read. -/
def blockLines? (folds : Bool) (parent : Int) : List Char → Mark → Block → (inLine : Bool) →
    Option (Block × Cursor)
  | [], m, b, _ => some (b, ⟨[], m⟩)
  | c :: rest, m, b, true =>
    if isBreak c then blockLines? folds parent rest m.newLine { b with leading := [c] } false
    else blockLines? folds parent rest (m.next c) { b with acc := c :: b.acc } true
  | c :: rest, m, b, false =>
    let inside := b.indent == 0 || m.column < b.indent
    if inside && c == ' ' then blockLines? folds parent rest (m.next c) b false
    else
      let b := { b with widest := max b.widest m.column }
      if inside && c == '\t' then none
      else if isBreak c then
        blockLines? folds parent rest m.newLine { b with trailing := c :: b.trailing } false
      else
        let b := b.settle parent
        if m.column = b.indent then
          blockLines? folds parent rest (m.next c) (b.startLine folds c) true
        else some (b, ⟨c :: rest, m⟩)

/-- The value of a digit from one to nine. -/
def indentation? (c : Char) : Option Nat :=
  if '1' ≤ c && c ≤ '9' then some (c.toNat - '0'.toNat) else none

/-- The indicators after the first character of a block scalar: chomping and indentation, in either
order. -/
def blockHeader? (c : Cursor) : Option (Chomping × Nat × Cursor) :=
  let chomping? : Char → Option Chomping
    | '+' => some .keep
    | '-' => some .strip
    | _ => none
  let isDigit (d : Char) : Bool := '0' ≤ d && d ≤ '9'
  match c.rest with
  | [] => some (.clip, 0, c)
  | x :: rest =>
    match chomping? x with
    | some chomping =>
      match rest with
      | d :: _ =>
        if isDigit d then do return (chomping, ← indentation? d, c.skip 2)
        else some (chomping, 0, c.skip 1)
      | [] => some (chomping, 0, c.skip 1)
    | none =>
      if isDigit x then do
        let n ← indentation? x
        match rest.head?.bind chomping? with
        | some chomping => return (chomping, n, c.skip 2)
        | none => return (.clip, n, c.skip 1)
      else some (.clip, 0, c)

/-- A block scalar after its first character. -/
def block? (folds : Bool) (parent : Int) (c : Cursor) : Option (String × Cursor) := do
  let (chomping, written, c) ← blockHeader? c
  let c ← c.lineEnd?
  let indent := if written = 0 then 0 else if 0 ≤ parent then parent.toNat + written else written
  let (b, c) ← blockLines? folds parent c.rest c.mark ⟨[], [], [], false, indent, 0⟩ false
  return (b.finish chomping, c)

end EventSchema.Markup.Yaml
