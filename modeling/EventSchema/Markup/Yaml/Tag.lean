import EventSchema.Keyed
import EventSchema.Markup.Yaml.Source
import EventSchema.Text.Quoted
import EventSchema.Text.Utf8

/-!
# YAML tags

A tag is written in full between `!<` and `>`, or as a handle and a suffix: the handle stands for
the start of a tag. It is a sequence of bytes, since an escape stands for any byte, and it ends in
front of the first zero byte.

* `uri?` — the bytes that a part of a tag spells;
* `handle`, `Shorthand`, `shorthand?` — a tag as it is written;
* `Handles`, `Shorthand.full?` — the tag in full;
* `Tag`, `Tag.ofBytes` — what a tag says about its node.
-/

namespace EventSchema.Markup.Yaml

/-! ## Bytes -/

/-- The characters that a tag may hold, apart from escapes. -/
def isUriChar (bracketsToo : Bool) (c : Char) : Bool :=
  isWord c || ";/?:@&=+$.!~*'()".toList.contains c ||
    (bracketsToo && (c = ',' || c = '[' || c = ']'))

/-- How many bytes a character takes whose first byte is given, by the leading bits. -/
def escapeWidth? (b : UInt8) : Option Nat :=
  if b < 0x80 then some 1
  else if b < 0xC0 then none
  else if b < 0xE0 then some 2
  else if b < 0xF0 then some 3
  else if b < 0xF8 then some 4
  else none

/-- How many escapes of the same character are due after an escaped byte, given how many were due in
front of it. If none was, the byte is a first one and tells how many follow; otherwise it must be a
continuation byte. -/
def escapesAfter? (due : Nat) (b : UInt8) : Option Nat :=
  match due with
  | 0 => (escapeWidth? b).map (· - 1)
  | n + 1 => if Text.Utf8.within b 0x80 0xBF then some n else none

/-- The bytes of a part of a tag, escapes decoded, and the text after it, given how many escapes are
due. The escapes of one character stand together. -/
def uriFrom? (bracketsToo : Bool) : List Char → (due : Nat) → Option (List UInt8 × List Char)
  | '%' :: a :: b :: rest, due => do
    let byte := UInt8.ofNat ((← Text.Quoted.hexValue? a) * 16 + (← Text.Quoted.hexValue? b))
    let (more, rest) ← uriFrom? bracketsToo rest (← escapesAfter? due byte)
    return (byte :: more, rest)
  | '%' :: _, _ => none
  | _, _ + 1 => none
  | [], 0 => some ([], [])
  | c :: rest, 0 =>
    if isUriChar bracketsToo c then do
      let (more, rest) ← uriFrom? bracketsToo rest 0
      return (UInt8.ofNat c.toNat :: more, rest)
    else some ([], c :: rest)

/-- The bytes of a part of a tag, and the text after it. -/
def uri? (bracketsToo : Bool) (cs : List Char) : Option (List UInt8 × List Char) :=
  uriFrom? bracketsToo cs 0

/-- The bytes in front of the first zero byte. -/
def beforeZero (bytes : List UInt8) : List UInt8 := bytes.takeWhile (· ≠ 0)

/-! ## Written tags -/

/-- The handle at the start of a text: `!`, a word, and `!` again if it is there. -/
def handle (cs : List Char) : List Char × List Char :=
  match cs with
  | '!' :: rest =>
    let word := rest.takeWhile isWord
    match rest.drop word.length with
    | '!' :: rest => ('!' :: word ++ ['!'], rest)
    | rest => ('!' :: word, rest)
  | _ => ([], cs)

/-- A tag as it is written. The empty handle stands for nothing. -/
structure Shorthand where
  handle : String
  suffix : List UInt8
  deriving DecidableEq

/-- The tag at the start of a text, and the text after it. `!` alone is a tag in full. -/
def shorthand? (cs : List Char) : Option (Shorthand × List Char) :=
  match cs with
  | '!' :: '<' :: rest => do
    let (suffix, rest) ← uri? true rest
    match rest with
    | '>' :: rest => if suffix = [] then none else some (⟨"", beforeZero suffix⟩, rest)
    | _ => none
  | _ =>
    let (h, rest) := handle cs
    if 2 ≤ h.length ∧ h.getLast? = some '!' then do
      let (suffix, rest) ← uri? false rest
      if suffix = [] then none else some (⟨String.ofList h, beforeZero suffix⟩, rest)
    else do
      let (more, rest) ← uri? false rest
      match beforeZero ((h.drop 1).map (fun c => UInt8.ofNat c.toNat) ++ more) with
      | [] => some (⟨"", Text.Utf8.encode "!"⟩, rest)
      | suffix => some (⟨"!", suffix⟩, rest)

/-- What the handles of a document stand for. -/
abbrev Handles := Keyed (List UInt8)

/-- The handles that need no directive. -/
def defaultHandles : Handles :=
  Keyed.ofList [("!", Text.Utf8.encode "!"), ("!!", Text.Utf8.encode "tag:yaml.org,2002:")]

/-- A tag in full, if its handle stands for something. -/
def Shorthand.full? (handles : Handles) (s : Shorthand) : Option (List UInt8) :=
  if s.handle = "" then some s.suffix else (Keyed.find? s.handle handles).map (· ++ s.suffix)

/-! ## Meaning -/

/-- What a tag says about its node. The first four name the types that a scalar may have besides
string. -/
inductive Tag where
  | null
  | bool
  | int
  | real
  /-- a type of the document's own -/
  | own (name : String)
  /-- a type of the document's own whose name is no text, which says nothing -/
  | nameless
  /-- any other type; a scalar that has one is a string -/
  | foreign
  deriving DecidableEq

/-- A text without an exclamation mark in front, unless it is all there is. -/
def withoutMark (cs : List Char) : List Char :=
  match cs with
  | '!' :: c :: rest => c :: rest
  | _ => cs

/-- The types that a scalar may have besides string, by their tags. -/
def coreTypes : List (String × Tag) :=
  [("tag:yaml.org,2002:null", .null), ("tag:yaml.org,2002:bool", .bool),
    ("tag:yaml.org,2002:int", .int), ("tag:yaml.org,2002:float", .real)]

/-- What a tag in full says. The type of a document's own starts with an exclamation mark, and one
or two of them do not belong to its name. -/
def Tag.ofBytes (bytes : List UInt8) : Tag :=
  match bytes with
  | 0x21 :: rest =>
    match Text.Utf8.decode? (if rest = [] then bytes else rest) with
    | some name => own (String.ofList (withoutMark name.toList))
    | none => nameless
  | _ =>
    ((coreTypes.find? fun e => Text.Utf8.encode e.1 = bytes).map (·.2)).getD foreign

end EventSchema.Markup.Yaml
