import EventSchema.Markup.Yaml.Scalar
import EventSchema.Markup.Yaml.Tag

/-!
# YAML tokens

The parts of a YAML text, with the block structure that indentation implies made explicit.

A key of a mapping need not be marked: it is only seen to be one at the `:` after it. So the scanner
remembers where such a key may have started and inserts a `key` token there when the `:` comes, and
with it the start of a block mapping where the indentation grows. A possible key ends at its line
and after 1024 bytes; it is required where the block structure has room for nothing else.

* `Token`, `Scanner` — the tokens, and the state of a scan;
* `Scanner.fetch?` — one token more;
* `tokens?` — the tokens of a whole text.
-/

namespace EventSchema.Markup.Yaml

/-- The parts of a YAML text. -/
inductive Token where
  | version (major minor : Nat)
  | tagHandle (handle : String) (uri : List UInt8)
  | documentStart
  | documentEnd
  | blockSeqStart
  | blockMapStart
  | blockEnd
  | flowSeqStart
  | flowSeqEnd
  | flowMapStart
  | flowMapEnd
  | blockEntry
  | flowEntry
  | key
  | value
  | alias (name : String)
  | anchor (name : String)
  | tag (written : Shorthand)
  | scalar (text : String) (style : Style)
  deriving DecidableEq

/-- A place where a key may have started: the number of tokens before it, and its mark. -/
structure Candidate where
  required : Bool
  index : Nat
  mark : Mark

/-- The state of a scan. -/
structure Scanner where
  cursor : Cursor
  /-- the tokens so far, the last one first -/
  tokens : List Token
  count : Nat
  /-- the column of the innermost block collection, `-1` outside all -/
  indent : Int
  /-- the columns of the block collections around it -/
  indents : List Int
  /-- where a key may have started on the present level -/
  candidate : Option Candidate
  /-- the same for the levels outside the open flow collections -/
  outer : List (Option Candidate)
  /-- whether a key may start here -/
  keyAllowed : Bool

namespace Scanner

/-- Whether the scan is inside a flow collection. -/
def inFlow (s : Scanner) : Bool := !s.outer.isEmpty

/-- The scan at the start of a text. -/
def start (text : List Char) : Scanner :=
  ⟨⟨text, .start⟩, [], 0, -1, [], none, [], true⟩

/-- Appends a token. -/
def emit (s : Scanner) (t : Token) : Scanner :=
  { s with tokens := t :: s.tokens, count := s.count + 1 }

/-- Inserts a token so that as many tokens as said stand before it. -/
def insertAt (s : Scanner) (index : Nat) (t : Token) : Scanner :=
  let after := s.count - index
  { s with
    tokens := s.tokens.take after ++ t :: s.tokens.drop after, count := s.count + 1 }

/-- Moves on by some characters of the line. -/
def skip (s : Scanner) (count : Nat) : Scanner := { s with cursor := s.cursor.skip count }

/-- Gives up the possible key of this level, unless it is required. -/
def dropCandidate? (s : Scanner) : Option Scanner :=
  if s.candidate.any (·.required) then none else some { s with candidate := none }

/-- Notes that a key may start here. -/
def saveCandidate? (s : Scanner) : Option Scanner :=
  if s.keyAllowed then do
    let required := !s.inFlow && s.indent == (s.cursor.mark.column : Int)
    let s ← s.dropCandidate?
    return { s with candidate := some ⟨required, s.count, s.cursor.mark⟩ }
  else some s

/-- Whether a possible key is too far behind a mark. -/
def Candidate.isStale (m : Mark) (c : Candidate) : Bool :=
  c.mark.line < m.line || c.mark.offset + 1024 < m.offset

/-- A possible key, unless it is too far behind; a required one must not be. -/
def fresh? (m : Mark) (c : Option Candidate) : Option (Option Candidate) :=
  match c with
  | none => some none
  | some c =>
    if Candidate.isStale m c then (if c.required then none else some none) else some (some c)

/-- Gives up the possible keys that are too far behind. -/
def dropStale? (s : Scanner) : Option Scanner := do
  let m := s.cursor.mark
  return { s with candidate := ← fresh? m s.candidate, outer := ← s.outer.mapM (fresh? m) }

/-- Opens a block collection at a column that is to the right of the innermost one. -/
def openBlock (s : Scanner) (column : Nat) (insert : Scanner → Scanner) : Scanner :=
  if !s.inFlow && s.indent < (column : Int) then
    insert { s with indents := s.indent :: s.indents, indent := column }
  else s

/-- Closes the block collections to the right of a column, given the columns around the
innermost. -/
def closeBlocks (column : Int) (s : Scanner) : List Int → Scanner
  | [] => s
  | outer :: rest =>
    if !s.inFlow && column < s.indent then
      closeBlocks column { s.emit .blockEnd with indent := outer, indents := rest } rest
    else s

/-- Closes the block collections to the right of a column. -/
def unroll (s : Scanner) (column : Int) : Scanner := closeBlocks column s s.indents

/-- The text from the next token on: blanks, comments and breaks are passed. A tab is a blank only
where it cannot be taken for indentation. -/
def skipBlanks (flow : Bool) : List Char → Mark → (allowed comment : Bool) → Cursor × Bool
  | [], m, allowed, _ => (⟨[], m⟩, allowed)
  | c :: rest, m, allowed, comment =>
    if isBreak c then skipBlanks flow rest m.newLine (allowed || !flow) false
    else if comment then skipBlanks flow rest (m.next c) allowed true
    else if c = byteOrderMark && m.column == 0 then skipBlanks flow rest (m.next c) allowed false
    else if c = ' ' || (c = '\t' && (flow || !allowed)) then
      skipBlanks flow rest (m.next c) allowed false
    else if c = '#' then skipBlanks flow rest (m.next c) allowed true
    else (⟨c :: rest, m⟩, allowed)

/-- Moves to the next token and closes what its column closes. -/
def toToken? (s : Scanner) : Option Scanner := do
  let (cursor, allowed) :=
    skipBlanks s.inFlow s.cursor.rest s.cursor.mark s.keyAllowed false
  let s ← { s with cursor := cursor, keyAllowed := allowed }.dropStale?
  return s.unroll cursor.mark.column

/-! ## Names and directives -/

/-- Whether a character may follow the name of an anchor or an alias. -/
def endsName (cs : List Char) : Bool :=
  startsBlank cs || cs.head?.any fun c => "?:,]\x7d%@`".toList.contains c

/-- The name of an anchor or an alias after its indicator, and its length. -/
def name? (cs : List Char) : Option (String × Nat) :=
  let name := cs.takeWhile isWord
  if name = [] ∨ endsName (cs.drop name.length) = false then none
  else some (String.ofList name, name.length)

/-- A decimal number of at most nine digits, and the text after it. -/
def versionNumber? (cs : List Char) : Option (Nat × List Char) :=
  let digits := cs.takeWhile Char.isDigit
  if digits = [] ∨ 9 < digits.length then none
  else some (digits.foldl (fun n c => 10 * n + (c.toNat - '0'.toNat)) 0, cs.drop digits.length)

/-- The directive after its indicator, and the text after it. -/
def directive? (cs : List Char) : Option (Token × List Char) :=
  let name := cs.takeWhile isWord
  let rest := cs.drop name.length
  if startsBlank rest = false then none
  else
    let rest := rest.dropWhile isBlank
    if name = "YAML".toList then do
      let (major, rest) ← versionNumber? rest
      match rest with
      | '.' :: rest => do
        let (minor, rest) ← versionNumber? rest
        return (.version major minor, rest)
      | _ => none
    else if name = "TAG".toList then
      let (h, rest) := handle rest
      if h = [] ∨ (h ≠ ['!'] ∧ h.getLast? ≠ some '!') then none
      else
        match rest with
        | b :: _ =>
          if isBlank b then do
            let (uri, rest) ← uri? true (rest.dropWhile isBlank)
            if uri = [] ∨ startsBlank rest = false then none
            else some (.tagHandle (String.ofList h) (beforeZero uri), rest)
          else none
        | [] => none
    else none

/-! ## One token more -/

/-- Moves to a later text on the same line. -/
def moveTo (s : Scanner) (rest : List Char) : Scanner := s.skip (s.cursor.rest.length - rest.length)

/-- A directive. -/
def fetchDirective? (s : Scanner) : Option Scanner := do
  let s ← (s.unroll (-1)).dropCandidate?
  let (t, rest) ← directive? (s.cursor.rest.drop 1)
  let s := s.moveTo rest
  let cursor ← s.cursor.lineEnd?
  return { s with cursor := cursor, keyAllowed := false }.emit t

/-- The marker of a document's start or end. -/
def fetchMarker? (s : Scanner) (t : Token) : Option Scanner := do
  let s ← (s.unroll (-1)).dropCandidate?
  return ({ s with keyAllowed := false }.skip 3).emit t

/-- The opening of a flow collection, which may itself be a key. -/
def fetchFlowStart? (s : Scanner) (t : Token) : Option Scanner := do
  let s ← s.saveCandidate?
  let s := { s with outer := s.candidate :: s.outer, candidate := none, keyAllowed := true }
  return (s.skip 1).emit t

/-- The closing of a flow collection. -/
def fetchFlowEnd? (s : Scanner) (t : Token) : Option Scanner := do
  let s ← s.dropCandidate?
  let s := match s.outer with
    | [] => s
    | c :: outer => { s with candidate := c, outer := outer }
  return ({ s with keyAllowed := false }.skip 1).emit t

/-- The comma of a flow collection. -/
def fetchFlowEntry? (s : Scanner) : Option Scanner := do
  let s ← s.dropCandidate?
  return ({ s with keyAllowed := true }.skip 1).emit .flowEntry

/-- The hyphen of a block sequence. -/
def fetchBlockEntry? (s : Scanner) : Option Scanner := do
  if !s.inFlow && !s.keyAllowed then none
  let s := s.openBlock s.cursor.mark.column (·.emit .blockSeqStart)
  let s ← s.dropCandidate?
  return ({ s with keyAllowed := true }.skip 1).emit .blockEntry

/-- The question mark in front of a key. -/
def fetchKey? (s : Scanner) : Option Scanner := do
  if !s.inFlow && !s.keyAllowed then none
  let s := s.openBlock s.cursor.mark.column (·.emit .blockMapStart)
  let s ← s.dropCandidate?
  return ({ s with keyAllowed := !s.inFlow }.skip 1).emit .key

/-- The colon in front of a value. A possible key on this level is one. -/
def fetchValue? (s : Scanner) : Option Scanner :=
  match s.candidate with
  | some c =>
    let s := s.insertAt c.index .key
    let s := s.openBlock c.mark.column (·.insertAt c.index .blockMapStart)
    some (({ s with candidate := none, keyAllowed := false }.skip 1).emit .value)
  | none =>
    if !s.inFlow && !s.keyAllowed then none
    else
      let s := s.openBlock s.cursor.mark.column (·.emit .blockMapStart)
      some (({ s with keyAllowed := !s.inFlow }.skip 1).emit .value)

/-- An alias or an anchor. -/
def fetchName? (s : Scanner) (t : String → Token) : Option Scanner := do
  let s ← s.saveCandidate?
  let (name, length) ← name? (s.cursor.rest.drop 1)
  return ({ s with keyAllowed := false }.skip (length + 1)).emit (t name)

/-- A tag. -/
def fetchTag? (s : Scanner) : Option Scanner := do
  let s ← s.saveCandidate?
  let (t, rest) ← shorthand? s.cursor.rest
  if !startsBlank rest && !(s.inFlow && rest.head? == some ',') then none
  return ({ s with keyAllowed := false }.moveTo rest).emit (.tag t)

/-- A block scalar. -/
def fetchBlock? (s : Scanner) (style : Style) : Option Scanner := do
  let s ← s.dropCandidate?
  let (text, cursor) ← block? (style = .folded) s.indent (s.cursor.skip 1)
  return { s with cursor := cursor, keyAllowed := true }.emit (.scalar text style)

/-- A quoted scalar. -/
def fetchQuoted? (s : Scanner) (style : Style) : Option Scanner := do
  let s ← s.saveCandidate?
  let c := s.cursor.skip 1
  let (text, cursor) ← quoted? (style = .doubleQuoted) c.rest c.mark [] (.text .empty)
  return { s with cursor := cursor, keyAllowed := false }.emit (.scalar text style)

/-- A plain scalar. -/
def fetchPlain? (s : Scanner) : Option Scanner := do
  let s ← s.saveCandidate?
  let e ← plain? s.inFlow (s.indent + 1) s.cursor.rest s.cursor.mark [] .empty
  return { s with cursor := e.cursor, keyAllowed := e.broken }.emit (.scalar e.text .plain)

/-- Whether a plain scalar may start with a character and the text after it. -/
def startsPlain (flow : Bool) (c : Char) (rest : List Char) : Bool :=
  if c = '-' then !rest.head?.any isBlank
  else if c = '?' || c = ':' then !flow && !startsBlank rest
  else !(",[]\x7b\x7d#&*!|>'\"%@`".toList.contains c || isBlank c || isBreak c)

/-- The next token, from a text that starts with it. -/
def fetch? (s : Scanner) : Option Scanner :=
  let flow := s.inFlow
  let column := s.cursor.mark.column
  match s.cursor.rest with
  | [] => none
  | c :: rest =>
    if column = 0 ∧ c = '%' then s.fetchDirective?
    else if column = 0 ∧ isDocumentStart (c :: rest) then s.fetchMarker? .documentStart
    else if column = 0 ∧ isDocumentEnd (c :: rest) then s.fetchMarker? .documentEnd
    else if c = '[' then s.fetchFlowStart? .flowSeqStart
    else if c = '\x7b' then s.fetchFlowStart? .flowMapStart
    else if c = ']' then s.fetchFlowEnd? .flowSeqEnd
    else if c = '\x7d' then s.fetchFlowEnd? .flowMapEnd
    else if c = ',' then s.fetchFlowEntry?
    else if c = '-' ∧ startsBlank rest then s.fetchBlockEntry?
    else if c = '?' ∧ (flow ∨ startsBlank rest) then s.fetchKey?
    else if c = ':' ∧ (flow ∨ startsBlank rest) then s.fetchValue?
    else if c = '*' then s.fetchName? .alias
    else if c = '&' then s.fetchName? .anchor
    else if c = '!' then s.fetchTag?
    else if c = '|' ∧ !flow then s.fetchBlock? .literal
    else if c = '>' ∧ !flow then s.fetchBlock? .folded
    else if c = '\'' then s.fetchQuoted? .singleQuoted
    else if c = '"' then s.fetchQuoted? .doubleQuoted
    else if startsPlain flow c rest then s.fetchPlain?
    else none

/-- The end of the text closes all blocks and leaves no required key behind. -/
def finish? (s : Scanner) : Option (List Token) := do
  let s ← (s.unroll (-1)).dropCandidate?
  return s.tokens.reverse

/-- All tokens from a state on, at most as many as there are steps. -/
def run? : Nat → Scanner → Option (List Token)
  | 0, _ => none
  | steps + 1, s =>
    match s.toToken? with
    | none => none
    | some s => if s.cursor.rest = [] then s.finish? else s.fetch?.bind (run? steps)

end Scanner

/-- The tokens of a text. Each of them takes at least one character. -/
def tokens? (text : List Char) : Option (List Token) := do
  let text ← prepare? text
  Scanner.run? (text.length + 1) (Scanner.start text)

end EventSchema.Markup.Yaml
