import EventSchema.Text.Terminal
import EventSchema.Tree

/-!
# Logs

What a run says about itself, in one of two formats.

* `LogEntry` — a message with its level and named numbers;
* `LogEntry.text` — an entry to be read; in a log that goes to a terminal the controls in a message
  have no effect;
* `LogEntry.tree` — an entry to be read by a program.
-/

namespace EventSchema.CommandLine

/-- How grave a log entry is. -/
inductive Level where
  | warning
  | error
  deriving DecidableEq, Repr

/-- The name of a level in a log. -/
def Level.name : Level → String
  | warning => "WARN"
  | error => "ERROR"

/-- How a log is written: as text for a terminal, or as JSON with an entry to a line. -/
inductive LogFormat where
  | terminal
  | json
  deriving DecidableEq, Repr

/-- A message as a format shows it. -/
def LogFormat.message (format : LogFormat) (text : String) : String :=
  match format with
  | terminal => Text.Terminal.plain text
  | json => text

/-- An entry of the log, with named numbers. -/
structure LogEntry where
  level : Level
  message : String
  numbers : List (String × Nat)
  deriving DecidableEq

namespace LogEntry

/-- An entry as text. -/
def text (e : LogEntry) (format : LogFormat) : String :=
  e.level.name ++ " " ++ format.message e.message ++
    String.join (e.numbers.map fun n => " " ++ n.1 ++ "=" ++ toString n.2)

/-- An entry as a tree. -/
def tree (e : LogEntry) : Tree :=
  .map (Keyed.ofList [("level", .str e.level.name),
    ("fields", .map (Keyed.ofList
      (("message", .str e.message) :: e.numbers.map fun n => (n.1, .num (.int n.2)))))])

/-- An entry as it stands in a log. -/
def line (e : LogEntry) (format : LogFormat) : String :=
  match format with
  | .terminal => e.text .terminal
  | .json => e.tree.compact

end LogEntry

end EventSchema.CommandLine
