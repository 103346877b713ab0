import EventSchema.Decimal.Literal
import EventSchema.Tree

/-!
# JSON documents

Strict JSON. A text is cut into tokens, and the tokens are fed one by one to a stack of the
containers that are open.

* `Json.Token`, `tokens?` — numbers, strings, words and punctuation;
* `Json.Open`, `feed?` — one token more; the stack never holds more containers than a limit says;
* `Json.parseWithin?`, `parse?` — the tree of a text; a document has at most `depthLimit` containers
  within each other. Of equal keys in one map the last one counts.
-/

namespace EventSchema.Markup.Json

/-- The parts of a JSON text. -/
inductive Token where
  | openSeq
  | closeSeq
  | openMap
  | closeMap
  | colon
  | comma
  | scalar (value : Tree)
  deriving DecidableEq

/-- The blanks between tokens. -/
def isSpace (c : Char) : Bool := c = ' ' || c = '\n' || c = '\t' || c = '\r'

/-- The longest run of digits at the start of a text, and the rest. -/
def digits (cs : List Char) : List Char × List Char :=
  (cs.takeWhile Decimal.isDigit, cs.dropWhile Decimal.isDigit)

/-- The exponent of a number after its letter, with the text after it. -/
def exponent? (cs : List Char) : Option ((Bool × Nat) × List Char) :=
  let (negative, cs) := match cs with
    | '+' :: rest => (false, rest)
    | '-' :: rest => (true, rest)
    | _ => (false, cs)
  match digits cs with
  | ([], _) => none
  | (ds, rest) => some ((negative, Decimal.valueOf ds), rest)

/-- Exponents from here on are beyond every sum of places. -/
def exponentBound : Nat := Nat.pow 2 31

/-- The exponent after adding a written one to the places of the digits. Sums stay within 32
bits. -/
def addExponent (places : Int) (negative : Bool) (written : Nat) : Int :=
  if negative then max (-(exponentBound : Int)) (places - written)
  else min ((exponentBound : Int) - 1) (places + written)

/-- The real number with some significand and a written exponent. An exponent beyond 32 bits makes
zero, or no number if it is positive and the significand is not zero. -/
def scaled? (negative : Bool) (s : Decimal.Scaled) (expNegative : Bool) (written : Nat) :
    Option Double :=
  if exponentBound ≤ written then
    if s.significand ≠ 0 ∧ expNegative = false then none else some (Double.zero negative)
  else Decimal.Scaled.value? negative ⟨s.significand, addExponent s.exponent expNegative written⟩

/-- An exact integer, if it lies between `-2 ^ 63` and `2 ^ 64 - 1` and is not a negative zero. -/
def exactInteger? (negative : Bool) (n : Nat) : Option Int :=
  if negative then if 0 < n ∧ n ≤ Nat.pow 2 63 then some (-(n : Int)) else none
  else if n < Nat.pow 2 64 then some n else none

/-- The number at the start of a text after its sign, with the text after it. -/
def number? (negative : Bool) (cs : List Char) : Option (Number × List Char) :=
  let (whole, rest) := digits cs
  match whole with
  | [] => none
  | '0' :: _ :: _ => none
  | _ =>
    let s := Decimal.Scaled.integral whole ⟨0, 0⟩
    let withExponent (s : Decimal.Scaled) (cs : List Char) : Option (Number × List Char) := do
      let ((expNegative, written), rest) ← exponent? cs
      return (.real (← scaled? negative s expNegative written), rest)
    match rest with
    | '.' :: rest =>
      match digits rest with
      | ([], _) => none
      | (fraction, rest) =>
        let s := Decimal.Scaled.fractional fraction s
        match rest with
        | 'e' :: rest => withExponent s rest
        | 'E' :: rest => withExponent s rest
        | _ => do return (.real (← s.value? negative), rest)
    | 'e' :: rest => withExponent s rest
    | 'E' :: rest => withExponent s rest
    | _ =>
      match exactInteger? negative (Decimal.valueOf whole) with
      | some n => some (.int n, rest)
      | none => do return (.real (← s.value? negative), rest)

/-- The token at the start of a text, with the text after it. -/
def token? : List Char → Option (Token × List Char)
  | '[' :: rest => some (.openSeq, rest)
  | ']' :: rest => some (.closeSeq, rest)
  | '\x7b' :: rest => some (.openMap, rest)
  | '\x7d' :: rest => some (.closeMap, rest)
  | ':' :: rest => some (.colon, rest)
  | ',' :: rest => some (.comma, rest)
  | '"' :: rest => do
    let (found, rest) ← Text.Quoted.decode? rest
    return (.scalar (.str (String.ofList found)), rest)
  | 'n' :: 'u' :: 'l' :: 'l' :: rest => some (.scalar .null, rest)
  | 't' :: 'r' :: 'u' :: 'e' :: rest => some (.scalar (.bool true), rest)
  | 'f' :: 'a' :: 'l' :: 's' :: 'e' :: rest => some (.scalar (.bool false), rest)
  | '-' :: rest => do
    let (n, rest) ← number? true rest
    return (.scalar (.num n), rest)
  | cs => do
    let (n, rest) ← number? false cs
    return (.scalar (.num n), rest)

/-- All tokens of a text, added to those found before it, which stand in reverse. Each step takes
a token or a blank. -/
def tokensAfter? : Nat → List Char → List Token → Option (List Token)
  | _, [], found => some found.reverse
  | 0, _ :: _, _ => none
  | steps + 1, c :: rest, found =>
    if isSpace c then tokensAfter? steps rest found
    else
      match token? (c :: rest) with
      | none => none
      | some (t, rest) => tokensAfter? steps rest (t :: found)

/-- The tokens of a text. Each of them takes at least one character. -/
def tokens? (cs : List Char) : Option (List Token) := tokensAfter? cs.length cs []

/-- A container that is open: what it holds so far, and what must come next. Items stand in
reverse. -/
inductive Open where
  /-- a sequence; `more` after a comma, when an item must come -/
  | seqItem (items : List Tree) (more : Bool)
  /-- a sequence after an item -/
  | seqAfter (items : List Tree)
  /-- a map; `more` after a comma, when a key must come -/
  | mapKey (fields : Fields) (more : Bool)
  /-- a map after a key -/
  | mapColon (fields : Fields) (key : String)
  /-- a map after a key and a colon -/
  | mapValue (fields : Fields) (key : String)
  /-- a map after a value -/
  | mapAfter (fields : Fields)

/-- The state of a text read so far: the open containers, innermost first, and the finished tree. -/
structure State where
  stack : List Open
  result : Option Tree

/-- A finished value takes its place in the innermost container, or is the result. -/
def State.complete? (s : State) (value : Tree) : Option State :=
  match s.stack with
  | [] => if s.result.isNone then some ⟨[], some value⟩ else none
  | .seqItem items _ :: outer => some { s with stack := .seqAfter (value :: items) :: outer }
  | .mapValue fields key :: outer =>
    some { s with stack := .mapAfter (Keyed.insert key value fields) :: outer }
  | .mapKey fields _ :: outer =>
    match value with
    | .str key => some { s with stack := .mapColon fields key :: outer }
    | _ => none
  | _ => none

/-- Whether a value may begin here. A key of a map is not a value. -/
def State.takesValue (s : State) : Bool :=
  match s.stack with
  | [] => s.result.isNone
  | .seqItem .. :: _ => true
  | .mapValue .. :: _ => true
  | _ => false

/-- Opens a container, if fewer than the limit are open. -/
def State.enter? (limit : Nat) (s : State) (o : Open) : Option State :=
  if s.takesValue ∧ s.stack.length < limit then some { s with stack := o :: s.stack } else none

/-- One token more. -/
def State.feed? (limit : Nat) (s : State) (t : Token) : Option State :=
  match t, s.stack with
  | .openSeq, _ => s.enter? limit (.seqItem [] false)
  | .openMap, _ => s.enter? limit (.mapKey [] false)
  | .closeSeq, .seqItem [] false :: outer => State.complete? { s with stack := outer } (.seq [])
  | .closeSeq, .seqAfter items :: outer =>
    State.complete? { s with stack := outer } (.seq items.reverse)
  | .closeMap, .mapKey [] false :: outer => State.complete? { s with stack := outer } (.map [])
  | .closeMap, .mapAfter fields :: outer => State.complete? { s with stack := outer } (.map fields)
  | .comma, .seqAfter items :: outer => some { s with stack := .seqItem items true :: outer }
  | .comma, .mapAfter fields :: outer => some { s with stack := .mapKey fields true :: outer }
  | .colon, .mapColon fields key :: outer => some { s with stack := .mapValue fields key :: outer }
  | .scalar value, _ => s.complete? value
  | _, _ => none

/-- The tree that a text spells with at most so many containers open at once. -/
def parseWithin? (limit : Nat) (text : String) : Option Tree := do
  let s ← (← tokens? text.toList).foldlM (State.feed? limit) ⟨[], none⟩
  if s.stack.isEmpty then s.result else none

/-- How many containers of a document may be open at once. -/
def depthLimit : Nat := 127

/-- The tree that the text of a document spells. -/
def parse? (text : String) : Option Tree := parseWithin? depthLimit text

end EventSchema.Markup.Json
