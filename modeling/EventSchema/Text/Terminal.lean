import EventSchema.Text.Quoted

/-!
# Terminal controls

The characters that change how a terminal shows what comes after them, and a text in which they are
written by their code points. The blanks and breaks among the control characters stay.

* `isShortControl`, `isLongControl` — the characters that start or end an escape sequence, and those
  that erase or ring;
* `plain` — a text without them.
-/

namespace EventSchema.Text.Terminal

/-- A control that is written in one byte. -/
def isShortControl (c : Char) : Bool :=
  c = '\x07' || c = '\x08' || c = '\x0c' || c = '\x1b' || c = '\x7f'

/-- A control of the second set, from U+0080 to U+009F. -/
def isLongControl (c : Char) : Bool := 0x80 ≤ c.toNat && c.toNat ≤ 0x9F

/-- One character without its effect. -/
def plainChar (c : Char) : List Char :=
  let digits := [Quoted.hexDigit (c.toNat / 16), Quoted.hexDigit (c.toNat % 16)]
  if isShortControl c then '\\' :: 'x' :: digits
  else if isLongControl c then '\\' :: 'u' :: '\x7b' :: digits ++ ['\x7d']
  else [c]

/-- A text whose controls have no effect. -/
def plain (s : String) : String := String.ofList (s.toList.flatMap plainChar)

end EventSchema.Text.Terminal
