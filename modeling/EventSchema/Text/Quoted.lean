/-!
# Quoted strings

The one way in which documents, module text and tables write a string between double quotes.

* `encode` — the characters between the quotes: a quote and a backslash are escaped, the control
  characters below U+0020 are written as a short escape or as `\u00xx`, all else stands for itself;
* `quote` — the whole literal;
* `items` — the reading side, which also takes `\/` and every `\u` escape, and ends at the first
  quote that stands alone;
* `pairUnits` — joins the two halves of a surrogate pair; a half that stands alone is refused.
-/

namespace EventSchema.Text.Quoted

/-- The lower-case hexadecimal digit of a number below sixteen. -/
def hexDigit (n : Nat) : Char :=
  if n < 10 then Char.ofNat (0x30 + n) else Char.ofNat (0x61 + n - 10)

/-- The value of a hexadecimal digit, of either case. -/
def hexValue? (c : Char) : Option Nat :=
  if '0' ≤ c ∧ c ≤ '9' then some (c.toNat - 0x30)
  else if 'a' ≤ c ∧ c ≤ 'f' then some (c.toNat - 0x61 + 10)
  else if 'A' ≤ c ∧ c ≤ 'F' then some (c.toNat - 0x41 + 10)
  else none

/-- How one character is written between quotes. -/
def escape (c : Char) : List Char :=
  if c = '"' then ['\\', '"']
  else if c = '\\' then ['\\', '\\']
  else if c = '\x08' then ['\\', 'b']
  else if c = '\x0c' then ['\\', 'f']
  else if c = '\n' then ['\\', 'n']
  else if c = '\r' then ['\\', 'r']
  else if c = '\t' then ['\\', 't']
  else if c < ' ' then ['\\', 'u', '0', '0', hexDigit (c.toNat / 16), hexDigit (c.toNat % 16)]
  else [c]

/-- The characters between the quotes. -/
def encode (cs : List Char) : List Char := cs.flatMap escape

/-- A string as a literal between double quotes. -/
def quote (s : String) : String := String.ofList ('"' :: encode s.toList ++ ['"'])

/-- What stands between two quotes: a character, or one 16-bit unit of an escape. -/
inductive Item where
  | char (c : Char)
  | unit (n : Nat)
  deriving DecidableEq

/-- The value of four hexadecimal digits. -/
def hexUnit? (a b c d : Char) : Option Nat := do
  return (((← hexValue? a) * 16 + (← hexValue? b)) * 16 + (← hexValue? c)) * 16 + (← hexValue? d)

/-- The character that a backslash and one further character stand for. -/
def shortEscape? : Char → Option Char
  | '"' => some '"'
  | '\\' => some '\\'
  | '/' => some '/'
  | 'b' => some '\x08'
  | 'f' => some '\x0c'
  | 'n' => some '\n'
  | 'r' => some '\r'
  | 't' => some '\t'
  | _ => none

/-- The items up to the closing quote, and the text after it. A control character, an unknown escape
and a missing quote are refused. -/
def items : List Char → Option (List Item × List Char)
  | [] => none
  | '"' :: rest => some ([], rest)
  | '\\' :: 'u' :: a :: b :: c :: d :: rest => do
    let n ← hexUnit? a b c d
    let (more, rest) ← items rest
    return (.unit n :: more, rest)
  | '\\' :: e :: rest => do
    let c ← shortEscape? e
    let (more, rest) ← items rest
    return (.char c :: more, rest)
  | c :: rest =>
    if c < ' ' ∨ c = '\\' then none
    else do
      let (more, rest) ← items rest
      return (.char c :: more, rest)

/-- First halves of surrogate pairs. -/
def isHigh (n : Nat) : Bool := 0xD800 ≤ n && n < 0xDC00

/-- Second halves of surrogate pairs. -/
def isLow (n : Nat) : Bool := 0xDC00 ≤ n && n < 0xE000

/-- The characters that items stand for: two halves make one character, a half alone makes none. -/
def pairUnits : List Item → Option (List Char)
  | [] => some []
  | .char c :: rest => (pairUnits rest).map (c :: ·)
  | .unit n :: .unit m :: rest =>
    if isHigh n then
      if isLow m then
        (pairUnits rest).map (Char.ofNat (0x10000 + (n - 0xD800) * 0x400 + (m - 0xDC00)) :: ·)
      else none
    else if isLow n then none
    else (pairUnits (.unit m :: rest)).map (Char.ofNat n :: ·)
  | .unit n :: rest =>
    if isHigh n || isLow n then none else (pairUnits rest).map (Char.ofNat n :: ·)

/-- Reads the rest of a literal whose opening quote has been read. -/
def decode? (cs : List Char) : Option (List Char × List Char) := do
  let (found, rest) ← items cs
  return (← pairUnits found, rest)

end EventSchema.Text.Quoted
