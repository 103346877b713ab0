import EventSchema.Glob.Search
import EventSchema.Library.Preload
import EventSchema.Settings

/-!
# Compilations

A compilation enumerates the documents that a pattern means, composes their catalog, renders the
module in memory and replaces the output file by it: the module goes into a new file beside the
output, which then takes the place of the output. Every access to the disk may be refused.

* `DiskStep`, `Host` — the accesses, and what the machine does with them;
* `enumerate`, `render` — the library of a pattern, and its module;
* `replaceFile` — the change on the disk;
* `compile`, `check` — a whole compilation, and the comparison with the output of an earlier one.
-/

namespace EventSchema

/-- The accesses of a compilation to the disk. -/
inductive DiskStep where
  | enumerate
  | readDocument (path : DocumentPath)
  | createTemporary
  | writeTemporary
  | syncTemporary
  | rename
  | setMode
  | readOutput
  deriving DecidableEq

/-- What a machine decides: which accesses it refuses, and how it runs the workers of a preload. -/
structure Host where
  refuses : DiskStep → Option OsError
  workers : Nat
  schedule : List Nat

/-- The host that refuses nothing and has one worker. -/
def Host.reliable : Host := ⟨fun _ => none, 1, []⟩

/-- An access that the host may refuse. -/
def Host.access {ε α : Type} (host : Host) (step : DiskStep) (refused : OsError → ε)
    (result : Except ε α) : Except ε α :=
  match host.refuses step with
  | some cause => .error (refused cause)
  | none => result

/-- Why no documents are enumerated. -/
inductive EnumerationError where
  | malformed (pattern : String) (cause : Glob.PatternError)
  | refused (pattern : String) (cause : OsError)
  | noDocuments (pattern : String)
  deriving DecidableEq

/-- The text of an error. -/
def EnumerationError.message : EnumerationError → String
  | malformed pattern cause => "invalid glob pattern '" ++ pattern ++ "': " ++ cause.message
  | refused pattern cause => "invalid glob pattern '" ++ pattern ++ "': " ++ cause.message
  | noDocuments pattern => "no schema documents matched '" ++ pattern ++ "'"

/-- Why a compilation or a comparison fails. -/
inductive CompileError where
  | enumeration (cause : EnumerationError)
  | composition (cause : ComposeError)
  | naming (cause : TypeScript.NameError)
  | outputUnreadable (output : String) (cause : OsError)
  | outputUnwritable (output : String) (cause : OsError)

/-- The text of an error. What hinders the writing of an output is said of a file whose name is
arbitrary, so it is left out. -/
def CompileError.message : CompileError → String
  | enumeration cause => cause.message
  | composition cause => cause.message
  | naming cause => cause.message
  | outputUnreadable output cause =>
    "failed to read existing output " ++ output ++ ": " ++ cause.message
  | outputUnwritable output _ => "failed to write output " ++ output

/-! ## Reading -/

/-- The files that a pattern means, in path order. -/
def enumerate (host : Host) (disk : Disk) (pattern : String) :
    Except EnumerationError (List DocumentPath) :=
  match Glob.parse pattern with
  | .error cause => .error (.malformed pattern cause)
  | .ok p => host.access .enumerate (.refused pattern) (.ok (disk.documents p))

/-- The texts of the documents on a disk. -/
def Disk.source (host : Host) (disk : Disk) : Source := fun path =>
  host.access (.readDocument path) OsError.message
    ((disk.readText path.text).mapError ReadError.message)

/-- The library of the documents that a pattern means, of which there must be some. -/
def openLibrary (host : Host) (disk : Disk) (pattern : String) :
    Except EnumerationError Library := do
  match ← enumerate host disk pattern with
  | [] => .error (.noDocuments pattern)
  | paths => return Library.ofPaths (disk.source host) paths

/-- A module, and how many documents and events went into it. -/
structure Rendered where
  module : String
  documents : Nat
  events : Nat
  deriving DecidableEq

/-- The catalog of a library after all its documents were loaded ahead. -/
def Library.composeLoaded (lib : Library) (host : Host) : Except ComposeError Catalog :=
  match lib.preload host.workers host.schedule [] with
  | (.error e, _) => .error e
  | (.ok _, cache) => (lib.compose (Session.start cache)).1

/-- The module of the documents that a pattern means. -/
def render (host : Host) (disk : Disk) (pattern : String) (options : TypeScript.ModuleOptions) :
    Except CompileError Rendered := do
  let lib ← (openLibrary host disk pattern).mapError .enumeration
  let catalog ← (lib.composeLoaded host).mapError .composition
  let text ← (catalog.module options).mapError .naming
  return ⟨text, lib.documents.length, catalog.events.length⟩

/-! ## Writing -/

/-- The permissions of a file that is not finished. -/
def temporaryMode : Nat := 0o600

/-- A name that no place on a disk has, because it is longer than all of them. -/
def freshName (disk : Disk) : Path.Segment :=
  let longest := disk.nodes.foldl (fun n e => max n ((e.1.getLast?.getD []).length)) 0
  ".evgen-".toList ++ List.replicate longest '0' ++ ".tmp".toList

/-- The directory in which a file is, as a path. -/
def directoryOf (path : String) : String :=
  let absolute := Path.isAbsolute path.toList
  let names := (Path.split path.toList).filter fun s => s ≠ [] ∧ s ≠ ['.']
  String.ofList (Path.render absolute names.dropLast)

/-- Creates an empty file beside a path. -/
def createTemporary (disk : Disk) (path : String) : Except OsError (Location × Disk) := do
  let directory ← disk.locate (directoryOf path)
  match disk.node? directory with
  | some .directory =>
    let temporary := directory ++ [freshName disk]
    return (temporary, disk.set temporary (.file [] temporaryMode))
  | some (.file ..) => .error .notDirectory
  | none => .error .notFound

/-- Moves a file to a path, in place of the file that is there. A directory stays. -/
def moveFile (disk : Disk) (place : Location) (path : String) :
    Except OsError (Location × Disk) := do
  let target ← disk.locate path
  match disk.node? place, disk.node? target with
  | none, _ => .error .notFound
  | _, some .directory => .error .isDirectory
  | some node, _ => return (target, (disk.erase place).set target node)

/-- Puts a content into a new file, and waits until it is stored. -/
def fillTemporary (host : Host) (disk : Disk) (place : Location) (content : List UInt8) :
    Except OsError Unit × Disk :=
  match host.refuses .writeTemporary with
  | some e => (.error e, disk)
  | none =>
    let written := disk.set place (.file content temporaryMode)
    match host.refuses .syncTemporary with
    | some e => (.error e, written)
    | none => (.ok (), written)

/-- The disk with a new content at a path. A new file that does not get there is erased again. -/
def replaceFile (host : Host) (disk : Disk) (path : String) (content : List UInt8) :
    Except OsError Unit × Disk :=
  match host.access .createTemporary id (createTemporary disk path) with
  | .error e => (.error e, disk)
  | .ok (temporary, created) =>
    match fillTemporary host created temporary content with
    | (.error e, disk) => (.error e, disk.erase temporary)
    | (.ok _, written) =>
      match host.access .rename id (moveFile written temporary path) with
      | .error e => (.error e, written.erase temporary)
      | .ok (output, moved) =>
        match host.refuses .setMode with
        | some e => (.error e, moved)
        | none => (.ok (), moved.set output (.file content Disk.fileMode))

/-! ## Compiling -/

/-- What a compilation did. -/
structure Report where
  documents : Nat
  events : Nat
  bytes : Nat
  output : String
  deriving DecidableEq

/-- Compiles: the output holds the module afterwards. -/
def compile (host : Host) (disk : Disk) (settings : Settings) : Except CompileError Report × Disk :=
  match render host disk settings.pattern settings.options with
  | .error e => (.error e, disk)
  | .ok rendered =>
    let content := Text.Utf8.encode rendered.module
    match replaceFile host disk settings.output content with
    | (.error e, disk) => (.error (.outputUnwritable settings.output e), disk)
    | (.ok _, disk) =>
      (.ok ⟨rendered.documents, rendered.events, content.length, settings.output⟩, disk)

/-- What a comparison says of an output. -/
inductive Freshness where
  | upToDate
  | stale
  | missing
  deriving DecidableEq, Repr

/-- Compares the output with the module that a compilation would write. -/
def check (host : Host) (disk : Disk) (settings : Settings) : Except CompileError Freshness := do
  let rendered ← render host disk settings.pattern settings.options
  match host.access .readOutput id (disk.read settings.output) with
  | .ok content =>
    return if content = Text.Utf8.encode rendered.module then .upToDate else .stale
  | .error .notFound => return .missing
  | .error e => .error (.outputUnreadable settings.output e)

end EventSchema
