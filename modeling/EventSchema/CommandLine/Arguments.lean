import EventSchema.CommandLine.Log

/-!
# Arguments

How the words of a command line are read. A word with two hyphens in front is a long option, one
with a single hyphen a run of short options, `--` ends all options, and other words are positional;
`-` alone is such a word. A value may be attached to its option or follow it; a following word that
looks like an option is no value. An option is given at most once, unless it is counted.

* `OptionSpec`, `Found` — the options of a level, and what its words say;
* `readWords` — the words of one level, up to the name of a subcommand where one is expected;
* `Invocation`, `parse` — the command line of the program.
-/

namespace EventSchema.CommandLine

/-- What an option does. -/
inductive OptionKind where
  | flag
  /-- a flag that may be repeated -/
  | counter
  /-- an option with a value, which may or may not be empty -/
  | value (mayBeEmpty : Bool)
  | help
  | version
  deriving DecidableEq

/-- An option with its names. -/
structure OptionSpec where
  long : String
  short : Option Char
  kind : OptionKind

/-- Why the words are not read to their end. -/
inductive Stop where
  /-- help is asked for -/
  | help
  /-- the version is asked for -/
  | version
  /-- the words are no command line of the program -/
  | misuse
  deriving DecidableEq

/-- What some words say. -/
structure Found where
  flags : List String
  values : List (String × String)
  /-- the words without hyphens, in their order -/
  positional : List String

namespace Found

/-- What no words say. -/
def empty : Found := ⟨[], [], []⟩

/-- One flag more. -/
def flag (f : Found) (o : OptionSpec) : Except Stop Found :=
  match o.kind with
  | .counter => .ok f
  | .flag =>
    if f.flags.contains o.long then .error .misuse else .ok { f with flags := o.long :: f.flags }
  | .help => .error .help
  | .version => .error .version
  | .value _ => .error .misuse

/-- One value more. -/
def value (f : Found) (o : OptionSpec) (text : String) : Except Stop Found :=
  match o.kind with
  | .value mayBeEmpty =>
    if (f.values.lookup o.long).isSome || (text = "" && !mayBeEmpty) then .error .misuse
    else .ok { f with values := (o.long, text) :: f.values }
  | _ => .error .misuse

end Found

/-- Whether an option takes a value. -/
def OptionSpec.takesValue (o : OptionSpec) : Bool :=
  match o.kind with
  | .value _ => true
  | _ => false

/-- What is found in one word, and the option that takes the next word. -/
abbrev Step := Except Stop (Found × Option OptionSpec)

/-- A long option, after its hyphens. -/
def readLong (specs : List OptionSpec) (f : Found) (word : List Char) : Step :=
  let name := word.takeWhile (· ≠ '=')
  match specs.find? (·.long = String.ofList name), word.drop name.length with
  | none, _ => .error .misuse
  | some o, _ :: text => do return (← f.value o (String.ofList text), none)
  | some o, [] => if o.takesValue then .ok (f, some o) else do return (← f.flag o, none)

/-- A run of short options. The rest of the word is the value of the first one that takes a
value. -/
def readShort (specs : List OptionSpec) (f : Found) : List Char → Step
  | [] => .ok (f, none)
  | c :: rest =>
    match specs.find? (·.short = some c) with
    | none => .error .misuse
    | some o =>
      if o.takesValue then
        match rest with
        | [] => .ok (f, some o)
        | '=' :: text => do return (← f.value o (String.ofList text), none)
        | text => do return (← f.value o (String.ofList text), none)
      else do readShort specs (← f.flag o) rest

/-- What a word is. -/
inductive Word where
  | long (text : List Char)
  | short (text : List Char)
  | optionsEnd
  | plain

/-- What a word is, by the hyphens in front. -/
def Word.ofString (s : String) : Word :=
  match s.toList with
  | ['-', '-'] => optionsEnd
  | '-' :: '-' :: text => long text
  | ['-'] => plain
  | '-' :: text => short text
  | _ => plain

/-- Whether a word can be the value of the option before it. -/
def Word.isPlain : Word → Bool
  | plain => true
  | _ => false

/-- The words of a level: what they say and, where a subcommand is expected, the words from its name
on. `limit` is the number of positional words, none where a subcommand is expected. -/
def readWords (specs : List OptionSpec) (limit : Option Nat) :
    List String → Found → Except Stop (Found × List String)
  | [], f => .ok (f, [])
  | word :: rest, f =>
    let next (step : Step) : Except Stop (Found × List String) := do
      match ← step with
      | (f, none) => readWords specs limit rest f
      | (f, some o) =>
        match rest with
        | [] => .error .misuse
        | text :: rest =>
          if (Word.ofString text).isPlain then do readWords specs limit rest (← f.value o text)
          else .error .misuse
    match Word.ofString word with
    | .long text => next (readLong specs f text)
    | .short text => next (readShort specs f text)
    | .optionsEnd =>
      let f := { f with positional := f.positional ++ rest }
      match limit with
      | some n => if f.positional.length ≤ n then .ok (f, []) else .error .misuse
      | none => .error .misuse
    | .plain =>
      match limit with
      | none => .ok (f, word :: rest)
      | some n =>
        if f.positional.length < n then
          readWords specs limit rest { f with positional := f.positional ++ [word] }
        else .error .misuse

/-! ## The program -/

/-- The options that stand on every level. -/
def commonOptions : List OptionSpec :=
  [⟨"verbose", some 'v', .counter⟩, ⟨"log-json", none, .flag⟩, ⟨"config", none, .value false⟩,
    ⟨"help", some 'h', .help⟩]

/-- The options in front of the subcommand. -/
def programOptions : List OptionSpec := ⟨"version", some 'V', .version⟩ :: commonOptions

/-- The options of `compile`. -/
def compileOptions : List OptionSpec :=
  [⟨"output", some 'o', .value false⟩, ⟨"banner", none, .value true⟩,
    ⟨"no-event-name", none, .flag⟩, ⟨"check", none, .flag⟩] ++ commonOptions

/-- The options of `refs`. -/
def referencesOptions : List OptionSpec := ⟨"json", none, .flag⟩ :: commonOptions

/-- What the program is asked to do. -/
inductive Command where
  | compile (pattern output banner : Option String) (omitEventName check : Bool)
  | references (pattern : Option String) (json : Bool)

/-- A command line: the settings file, the format of the log and the command. -/
structure Invocation where
  config : Option String
  logFormat : LogFormat
  command : Command

/-- The command line of a subcommand, given the words in front of it. -/
def Found.invocation (f outer : Found) (command : Command) : Invocation :=
  ⟨(f.values.lookup "config").or (outer.values.lookup "config"),
    if (f.flags ++ outer.flags).contains "log-json" then .json else .terminal, command⟩

/-- The command line that some words spell. -/
def parse (words : List String) : Except Stop Invocation := do
  let (outer, rest) ← readWords programOptions none words .empty
  match rest with
  | [] => .error .misuse
  | name :: rest =>
    if name = "compile" then do
      let (f, _) ← readWords compileOptions (some 1) rest .empty
      return f.invocation outer
        (.compile f.positional.head? (f.values.lookup "output") (f.values.lookup "banner")
          (f.flags.contains "no-event-name") (f.flags.contains "check"))
    else if name = "refs" then do
      let (f, _) ← readWords referencesOptions (some 1) rest .empty
      return f.invocation outer (.references f.positional.head? (f.flags.contains "json"))
    else if name = "help" then
      match rest with
      | [] => .error .help
      | [topic] => .error (if ["compile", "refs", "help"].contains topic then .help else .misuse)
      | _ => .error .misuse
    else .error .misuse

end EventSchema.CommandLine
