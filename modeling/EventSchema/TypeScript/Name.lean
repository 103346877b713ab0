import EventSchema.Text.Quoted

/-!
# Names

The identifiers that a title gives, and the keys of properties.

* `pascalCase?` — the words of a title, each with a capital, one after the other; a word is a run of
  ASCII letters and digits;
* `EventNames` — the names of the three declarations of an event;
* `propertyKey` — a name as a key: bare if it is an identifier, and quoted otherwise.
-/

namespace EventSchema.TypeScript

/-- The words of a text one after the other; `start` says whether the next character may start a
word. -/
def pascalChars (start : Bool) : List Char → List Char
  | [] => []
  | c :: rest =>
    if c.isAlphanum then (if start then c.toUpper else c) :: pascalChars false rest
    else pascalChars true rest

/-- The words of a title as one name, if it has some. -/
def pascalCase? (title : String) : Option String :=
  match pascalChars true title.toList with
  | [] => none
  | cs => some (String.ofList cs)

/-- The names that are generated for an event. -/
structure EventNames where
  /-- the words of the title -/
  pascal : String
  /-- the function that builds the event -/
  factory : String
  /-- the type of its properties -/
  propertiesType : String
  /-- the type of the event -/
  eventType : String
  deriving DecidableEq

/-- Whether a name starts with a digit. A type must not. -/
def startsWithDigit (name : String) : Bool := name.toList.head?.any Char.isDigit

/-- The names from the words of a title. -/
def EventNames.ofPascal (pascal : String) : EventNames :=
  let base := if startsWithDigit pascal then "Event" ++ pascal else pascal
  { pascal
    factory := "make" ++ pascal
    propertiesType := base ++ "Properties"
    eventType := base ++ "Event" }

/-- The names of the event with a title. -/
def EventNames.ofTitle? (title : String) : Option EventNames :=
  (pascalCase? title).map EventNames.ofPascal

/-- The characters that an identifier may start with. -/
def startsIdentifier (c : Char) : Bool := c.isAlpha || c = '_' || c = '$'

/-- The characters of an identifier after the first. -/
def continuesIdentifier (c : Char) : Bool := c.isAlphanum || c = '_' || c = '$'

/-- Whether a text is an identifier. Only ASCII letters count. -/
def isIdentifier : List Char → Bool
  | [] => false
  | c :: rest => startsIdentifier c && rest.all continuesIdentifier

/-- A name as the key of a property. -/
def propertyKey (name : String) : String :=
  if isIdentifier name.toList then name else Text.Quoted.quote name

end EventSchema.TypeScript
