/-!
# YAML text

The characters of a YAML text before any structure is seen.

* `prepare?` — refuses control characters and writes every ordinary line break as a line feed; the
  two separators U+2028 and U+2029 are breaks as well, and stay as they are because a scalar keeps
  them;
* `Mark` — a place on a line, from which indentation and the reach of a key are read off;
* `Cursor` — the text that is left, and where it starts.
-/

namespace EventSchema.Markup.Yaml

/-- The characters that a text may hold. -/
def isAllowed (c : Char) : Bool :=
  c = '\t' || c = '\n' || c = '\r' || (' ' ≤ c && c ≤ '~') || c = '\u0085' ||
    ('\u00a0' ≤ c && c.toNat < 0xFFFE) || 0x10000 ≤ c.toNat

/-- The byte order mark, which is passed at the start of a line and takes up a column there. -/
def byteOrderMark : Char := '\ufeff'

/-- A break, once the ordinary ones are line feeds. -/
def isBreak (c : Char) : Bool := c = '\n' || c = '\u2028' || c = '\u2029'

/-- A blank within a line. -/
def isBlank (c : Char) : Bool := c = ' ' || c = '\t'

/-- Whether a text starts with a blank or a break, or is at its end. -/
def startsBlank : List Char → Bool
  | [] => true
  | c :: _ => isBlank c || isBreak c

/-- A letter, a digit, a hyphen or an underscore. -/
def isWord (c : Char) : Bool := c.isAlphanum || c = '-' || c = '_'

/-- Writes carriage returns, their pairs with line feeds, and next-line characters as line feeds. -/
def unifyBreaks : List Char → List Char
  | [] => []
  | '\r' :: '\n' :: rest => '\n' :: unifyBreaks rest
  | '\r' :: rest => '\n' :: unifyBreaks rest
  | '\u0085' :: rest => '\n' :: unifyBreaks rest
  | c :: rest => c :: unifyBreaks rest

/-- The characters to be read, if all of them are allowed. -/
def prepare? (text : List Char) : Option (List Char) :=
  if text.all isAllowed then some (unifyBreaks text) else none

/-- A place in a text. -/
structure Mark where
  line : Nat
  /-- the characters in front of it on its line -/
  column : Nat
  /-- the bytes in front of it on its line -/
  offset : Nat
  deriving DecidableEq

/-- The place where a text starts. -/
def Mark.start : Mark := ⟨0, 0, 0⟩

/-- The place after one character that is no break. -/
def Mark.next (m : Mark) (c : Char) : Mark :=
  { m with column := m.column + 1, offset := m.offset + c.utf8Size }

/-- The place after a break. -/
def Mark.newLine (m : Mark) : Mark := ⟨m.line + 1, 0, 0⟩

/-- The text that is left, with the place where it starts. -/
structure Cursor where
  rest : List Char
  mark : Mark

/-- The cursor some characters further on the same line. -/
def Cursor.skip (c : Cursor) (count : Nat) : Cursor :=
  ⟨c.rest.drop count, (c.rest.take count).foldl Mark.next c.mark⟩

/-- The cursor after the characters of a class. -/
def Cursor.skipWhile (c : Cursor) (p : Char → Bool) : Cursor := c.skip (c.rest.takeWhile p).length

/-- The cursor after blanks and a comment, which are all that may end the line of an indicator. -/
def Cursor.lineEnd? (c : Cursor) : Option Cursor :=
  let c := c.skipWhile isBlank
  let c := if c.rest.head? = some '#' then c.skipWhile (!isBreak ·) else c
  match c.rest with
  | [] => some c
  | b :: rest => if isBreak b then some ⟨rest, c.mark.newLine⟩ else none

/-- Whether three characters mark the start of a document, standing alone. -/
def isDocumentStart : List Char → Bool
  | '-' :: '-' :: '-' :: rest => startsBlank rest
  | _ => false

/-- Whether three characters mark the end of a document, standing alone. -/
def isDocumentEnd : List Char → Bool
  | '.' :: '.' :: '.' :: rest => startsBlank rest
  | _ => false

/-- Whether a line starts with a marker of a document's start or end. -/
def isDocumentMarker (cs : List Char) : Bool := isDocumentStart cs || isDocumentEnd cs

end EventSchema.Markup.Yaml
