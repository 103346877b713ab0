import EventSchema.CommandLine.Arguments
import EventSchema.ReferenceTable
import EventSchema.Settings.Document

/-!
# The command line

What the program does, as a function of a disk, the environment and the words of the command line.

* `Outcome` — the exit code, the standard output and the log;
* `baseLayer` — the settings below those of the command line;
* `run` — a whole run, which answers with the disk afterwards.

The exit code is 0 if all is well, 1 if something is wrong, and 2 for words that make no command
line.
-/

namespace EventSchema.CommandLine

/-- What a run leaves behind, the disk apart. -/
structure Outcome where
  code : Nat
  stdout : String
  log : List LogEntry
  logFormat : LogFormat
  deriving DecidableEq

namespace Outcome

/-- A run that ends with an error. -/
def failed (message : String) : Outcome := ⟨1, "", [⟨.error, message, []⟩], .terminal⟩

/-- A run that says nothing. -/
def silent (code : Nat) : Outcome := ⟨code, "", [], .terminal⟩

/-- A run that says one line. -/
def said (code : Nat) (line : String) : Outcome := ⟨code, line ++ "\n", [], .terminal⟩

end Outcome

/-- What a settings file says. -/
def fileLayer (disk : Disk) (file : String) : Except SettingsError Settings.Layer :=
  match disk.readText file with
  | .error cause => .error (.unreadable file cause.message)
  | .ok text => Settings.Layer.ofText file text

/-- The settings below those of the command line: the environment over the settings file. -/
def baseLayer (disk : Disk) (config : Option String) (environment : Settings.Layer) :
    Except SettingsError Settings.Layer := do
  match config with
  | none => return environment.above .empty
  | some file => return environment.above (← fileLayer disk file)

/-- What is said of an output after a comparison. -/
def freshnessOutcome (output : String) : Freshness → Outcome
  | .upToDate => .said 0 ("OK: " ++ output ++ " is up to date")
  | .stale =>
    .said 1 ("FAIL: " ++ output ++
      " is out of date; run \x60evgen compile\x60 to regenerate it")
  | .missing => .said 1 ("FAIL: " ++ output ++ " does not exist")

/-- What is said of a compilation. -/
def reportOutcome (report : Report) : Outcome :=
  .said 0 ("OK: wrote " ++ toString report.events ++ " event(s) from " ++
    toString report.documents ++ " document(s) to " ++ report.output ++ " (" ++
    toString report.bytes ++ " bytes)")

/-- Compiles, or compares with the output. -/
def runCompile (host : Host) (disk : Disk) (layer : Settings.Layer) (comparing : Bool) :
    Outcome × Disk :=
  match layer.complete with
  | .error e => (.failed ("incomplete configuration: " ++ e.message), disk)
  | .ok settings =>
    if comparing then
      match check host disk settings with
      | .error e => (.failed ("failed to check " ++ settings.output ++ ": " ++ e.message), disk)
      | .ok freshness => (freshnessOutcome settings.output freshness, disk)
    else
      match compile host disk settings with
      | (.error e, disk) =>
        (.failed ("failed to compile '" ++ settings.pattern ++ "': " ++ e.message), disk)
      | (.ok report, disk) => (reportOutcome report, disk)

/-- Shows the references of the documents that a pattern means. -/
def runReferences (host : Host) (disk : Disk) (pattern : Option String) (json : Bool) : Outcome :=
  match pattern with
  | none => .failed "no pattern given (pass one or configure it)"
  | some pattern =>
    match referencesOf host disk pattern with
    | .error e => .failed e.message
    | .ok (lib, table) =>
      let text := if json then table.tree.pretty ++ "\n" else table.text lib
      match (table.dangling lib).length with
      | 0 => ⟨0, text, [], .terminal⟩
      | n =>
        ⟨1, text, [⟨.warning, "references point outside the enumerated documents",
          [("dangling", n)]⟩], .terminal⟩

/-- Does what a command asks for, on top of the settings below it. -/
def runCommand (host : Host) (disk : Disk) (base : Settings.Layer) : Command → Outcome × Disk
  | .compile pattern output banner omitEventName check =>
    let layer : Settings.Layer :=
      ⟨pattern, output, banner, if omitEventName then some false else none⟩
    runCompile host disk (layer.above base) check
  | .references pattern json => (runReferences host disk (pattern.or base.pattern) json, disk)

/-- The name and the version of the program. -/
def versionLine : String := "evgen 0.1.0"

/-- The paths below which everything lies that a run looks at besides its settings file. -/
def places (disk : Disk) (environment : String → Option String) (words : List String) :
    List String :=
  match parse words with
  | .error _ => []
  | .ok invocation =>
    match baseLayer disk invocation.config (.ofLookup environment) with
    | .error _ => []
    | .ok base =>
      let (pattern, output) := match invocation.command with
        | .compile pattern output .. => (pattern.or base.pattern, output.or base.output)
        | .references pattern _ => (pattern.or base.pattern, none)
      let start := pattern.bind fun pattern =>
        match Glob.parse pattern with
        | .ok p => some p.start
        | .error _ => none
      start.toList ++ output.toList

/-- Does what a command line asks for. -/
def runInvocation (host : Host) (disk : Disk) (environment : String → Option String)
    (invocation : Invocation) : Outcome × Disk :=
  match baseLayer disk invocation.config (.ofLookup environment) with
  | .error e => (.failed e.message, disk)
  | .ok base => runCommand host disk base invocation.command

/-- Runs the program. -/
def run (host : Host) (disk : Disk) (environment : String → Option String) (words : List String) :
    Outcome × Disk :=
  match parse words with
  | .error .help => (.silent 0, disk)
  | .error .version => (.said 0 versionLine, disk)
  | .error .misuse => (.silent 2, disk)
  | .ok invocation =>
    let (outcome, disk) := runInvocation host disk environment invocation
    ({ outcome with logFormat := invocation.logFormat }, disk)

end EventSchema.CommandLine
