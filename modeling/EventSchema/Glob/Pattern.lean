import EventSchema.Path

/-!
# Glob patterns

A pattern for names: `?` is any character, `*` any characters, `[abc]`, `[a-z]` and `[!abc]` one
character of a class or outside it, and all else stands for itself. `**` is allowed as a whole
component of a path only.

* `Glob.Token`, `tokens` — a pattern in parts, or the place and the kind of its first fault;
* `Glob.matchesName` — whether a name fits: part by part from the last one, with all ends of the
  name at once;
* `Glob.Component`, `components` — a path pattern, cut at its slashes.
-/

namespace EventSchema.Glob

/-- What is wrong with a pattern. -/
inductive Fault where
  /-- more than two stars in a row -/
  | wildcards
  /-- two stars that are not a component of their own -/
  | recursiveWildcards
  /-- a bracket without a class -/
  | range
  deriving DecidableEq, Repr

/-- The text of a fault. -/
def Fault.message : Fault → String
  | wildcards => "wildcards are either regular \x60*\x60 or recursive \x60**\x60"
  | recursiveWildcards => "recursive wildcards must form a single path component"
  | range => "invalid range pattern"

/-- A fault, and where it is noticed. -/
structure PatternError where
  position : Nat
  fault : Fault
  deriving DecidableEq, Repr

/-- The text of an error. -/
def PatternError.message (e : PatternError) : String :=
  "Pattern syntax error near position " ++ toString e.position ++ ": " ++ e.fault.message

/-- The characters of a class. -/
inductive Span where
  | single (c : Char)
  | range (first last : Char)
  deriving DecidableEq

/-- Whether a character belongs to a part of a class. -/
def Span.holds (c : Char) : Span → Bool
  | single x => c = x
  | range first last => first ≤ c && c ≤ last

/-- The parts of a class: a hyphen between two characters makes a range. -/
def spans : List Char → List Span
  | a :: '-' :: b :: rest => .range a b :: spans rest
  | a :: rest => .single a :: spans rest
  | [] => []

/-- The parts of a pattern. -/
inductive Token where
  | char (c : Char)
  | anyChar
  | anyChars
  /-- any directories -/
  | anyDirectories
  /-- a character of a class, or one outside it -/
  | oneOf (negated : Bool) (spans : List Span)
  deriving DecidableEq

/-- What is read next: a part of the pattern, or a character of a class that started at a place. -/
inductive Mode where
  | outside (previous : Option Char)
  | inside (negated : Bool) (start : Nat) (found : List Char)

/-- The parts of a pattern from a position on. -/
def tokensFrom : Mode → Nat → List Char → Except PatternError (List Token)
  | .inside _ start _, _, [] => .error ⟨start, .range⟩
  | .inside negated start found, i, c :: rest =>
    if c = ']' then do
      return .oneOf negated (spans found.reverse) :: (← tokensFrom (.outside (some c)) (i + 1) rest)
    else tokensFrom (.inside negated start (c :: found)) (i + 1) rest
  | .outside _, _, [] => .ok []
  | .outside _, i, '*' :: '*' :: '*' :: _ => .error ⟨i + 2, .wildcards⟩
  | .outside previous, i, '*' :: '*' :: rest =>
    if previous ≠ none ∧ previous ≠ some '/' then .error ⟨i - 1, .recursiveWildcards⟩
    else
      match rest with
      | [] => .ok [.anyDirectories]
      | c :: rest =>
        if c = '/' then do
          return .anyDirectories :: (← tokensFrom (.outside (some '/')) (i + 3) rest)
        else .error ⟨i + 2, .recursiveWildcards⟩
  | .outside _, i, '*' :: rest => do
    return .anyChars :: (← tokensFrom (.outside (some '*')) (i + 1) rest)
  | .outside _, i, '?' :: rest => do
    return .anyChar :: (← tokensFrom (.outside (some '?')) (i + 1) rest)
  | .outside _, i, '[' :: '!' :: c :: rest => tokensFrom (.inside true i [c]) (i + 3) rest
  | .outside _, i, '[' :: c :: rest => tokensFrom (.inside false i [c]) (i + 2) rest
  | .outside _, i, '[' :: [] => .error ⟨i, .range⟩
  | .outside _, i, c :: rest => do
    return .char c :: (← tokensFrom (.outside (some c)) (i + 1) rest)

/-- The parts of a pattern. -/
def tokens (pattern : List Char) : Except PatternError (List Token) :=
  tokensFrom (.outside none) 0 pattern

/-- Whether one part fits a character. -/
def Token.fits (c : Char) : Token → Bool
  | char x => c = x
  | anyChar => true
  | oneOf negated spans => spans.any (·.holds c) != negated
  | _ => false

/-- Which ends of a name fit a part and those after it, given which ends fit those after it. The
ends of a name are the name itself, the name without its first character, and so on to nothing. -/
def Token.ends (name : List Char) (t : Token) (after : List Bool) : List Bool :=
  match t with
  | anyChars => after.foldr (fun b found => (b || found.head? == some true) :: found) []
  | t => List.zipWith (fun c b => t.fits c && b) name after.tail ++ [false]

/-- Which ends of a name fit the parts of a pattern. -/
def matchesEnds (name : List Char) (ts : List Token) : List Bool :=
  ts.foldr (Token.ends name) (name.map (fun _ => false) ++ [true])

/-- Whether a name fits a pattern. -/
def matchesName (ts : List Token) (name : List Char) : Bool :=
  (matchesEnds name ts).head? == some true

/-! ## Path patterns -/

/-- One component of a path pattern. -/
inductive Component where
  /-- any directories below each other, none included -/
  | anyDirectories
  /-- a name -/
  | literal (name : Path.Segment)
  | wild (tokens : List Token)
  deriving DecidableEq

/-- The character that a part stands for. -/
def Token.char? : Token → Option Char
  | char c => some c
  | _ => none

/-- A component from its parts. -/
def Component.ofTokens (ts : List Token) : Component :=
  if ts.contains .anyDirectories then .anyDirectories
  else
    match ts.mapM Token.char? with
    | some name => .literal name
    | none => .wild ts

/-- The components without repetitions of `**`, which would add nothing. -/
def collapse : List Component → List Component
  | .anyDirectories :: .anyDirectories :: rest => collapse (.anyDirectories :: rest)
  | c :: rest => c :: collapse rest
  | [] => []

/-- A pattern for paths. -/
structure PathPattern where
  absolute : Bool
  components : List Component
  /-- whether only directories fit -/
  onlyDirectories : Bool

/-- The segments between slashes, where a slash at the end ends the last one. -/
def segments (pattern : List Char) : List Path.Segment :=
  let found := Path.split pattern
  if found.getLast? = some [] then found.dropLast else found

/-- The pattern that a text spells. It is checked as a whole first, and then by components. -/
def parse (text : String) : Except PatternError PathPattern := do
  let pattern := text.toList
  let _ ← tokens pattern
  let absolute := Path.isAbsolute pattern
  let relative := if absolute then pattern.drop 1 else pattern
  let components ← (segments relative).mapM fun s => Component.ofTokens <$> tokens s
  return ⟨absolute, collapse (if relative = [] then [.literal []] else components),
    pattern.getLast? = some '/'⟩

/-- The names in front of the first component that is no name. -/
def leadingNames : List Component → List Path.Segment
  | .literal name :: rest => name :: leadingNames rest
  | _ => []

/-- The directory below which everything lies that a pattern means. -/
def PathPattern.start (p : PathPattern) : String :=
  String.ofList (Path.render p.absolute (leadingNames p.components))

end EventSchema.Glob
