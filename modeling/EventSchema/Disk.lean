import EventSchema.Path

/-!
# Disks

Files and directories, as far as a compilation sees them: a tree of names without links, the
contents and the permissions of files, and a working directory from which relative paths are read.

* `Disk.locate` — the place that a path means; what stands before a slash must be a directory;
* `Disk.read`, `readText` — the content of a file;
* `Disk.set`, `erase`, `remove`, `put` — changes;
* `Disk.listing` — everything below a directory.
-/

namespace EventSchema

/-- Why the system refuses an access. -/
inductive OsError where
  | notFound
  | notDirectory
  | isDirectory
  | nameTooLong
  | zeroInName
  /-- any other reason, given by its text -/
  | other (text : String)
  deriving DecidableEq, Repr

/-- The text of an error. -/
def OsError.message : OsError → String
  | notFound => "No such file or directory (os error 2)"
  | notDirectory => "Not a directory (os error 20)"
  | isDirectory => "Is a directory (os error 21)"
  | nameTooLong => "File name too long (os error 36)"
  | zeroInName => "file name contained an unexpected NUL byte"
  | other text => text

/-- Why there is no text. -/
inductive ReadError where
  | refused (cause : OsError)
  | notUtf8
  deriving DecidableEq, Repr

/-- The text of an error. -/
def ReadError.message : ReadError → String
  | refused cause => cause.message
  | notUtf8 => "stream did not contain valid UTF-8"

/-- A place on a disk: the names from the root on. -/
abbrev Location := List Path.Segment

/-- What stands at a place. -/
inductive DiskNode where
  | directory
  | file (content : List UInt8) (mode : Nat)
  deriving DecidableEq

/-- A disk with a working directory. -/
structure Disk where
  nodes : List (Location × DiskNode)
  working : Location

namespace Disk

/-- What stands at a place. The root is always a directory. -/
def node? (d : Disk) : Location → Option DiskNode
  | [] => some .directory
  | l => d.nodes.lookup l

/-- Whether a directory stands at a place. -/
def hasDirectory (d : Disk) (l : Location) : Bool := d.node? l == some .directory

/-- The place that one segment of a path means in a directory. -/
def step (l : Location) (s : Path.Segment) : Location :=
  if s = [] ∨ s = ['.'] then l else if s = ['.', '.'] then l.dropLast else l ++ [s]

/-- The bytes that a name may take. -/
def nameLimit : Nat := 255

/-- The bytes that a path may take. -/
def pathLimit : Nat := 4095

/-- How many bytes a segment takes. -/
def size (s : Path.Segment) : Nat := s.foldl (fun n c => n + c.utf8Size) 0

/-- The place that some segments mean from another place on. A name that is too long is noticed
where it would be looked up. -/
def walk (d : Disk) : Location → List Path.Segment → Except OsError Location
  | l, [] => .ok l
  | l, s :: rest =>
    match d.node? l with
    | some .directory => if nameLimit < size s then .error .nameTooLong else d.walk (step l s) rest
    | some (.file ..) => .error .notDirectory
    | none => .error .notFound

/-- The place that a path means. There need not be anything. -/
def locate (d : Disk) (path : String) : Except OsError Location :=
  let text := path.toList
  if text.contains '\x00' then .error .zeroInName
  else if path = "" then .error .notFound
  else if pathLimit < size text then .error .nameTooLong
  else
    d.walk (if Path.isAbsolute text then [] else d.working) (Path.split text)

/-- The content of the file at a place. -/
def contentAt (d : Disk) (l : Location) : Except OsError (List UInt8) :=
  match d.node? l with
  | some (.file content _) => .ok content
  | some .directory => .error .isDirectory
  | none => .error .notFound

/-- The content of a file. -/
def read (d : Disk) (path : String) : Except OsError (List UInt8) := do
  d.contentAt (← d.locate path)

/-- The text of a file. -/
def readText (d : Disk) (path : String) : Except ReadError String :=
  match d.read path with
  | .error cause => .error (.refused cause)
  | .ok content =>
    match Text.Utf8.decode? content with
    | some text => .ok text
    | none => .error .notUtf8

/-- The disk with something else at a place. -/
def set (d : Disk) (l : Location) (n : DiskNode) : Disk :=
  { d with nodes := (l, n) :: d.nodes.filter fun e => e.1 ≠ l }

/-- The disk with nothing at a place. -/
def erase (d : Disk) (l : Location) : Disk := { d with nodes := d.nodes.filter fun e => e.1 ≠ l }

/-- The disk with nothing at a place and below it. -/
def remove (d : Disk) (l : Location) : Disk :=
  { d with nodes := d.nodes.filter fun e => !l.isPrefixOf e.1 }

/-- The directories above a place, the uppermost first. -/
def above (l : Location) : List Location := (List.range l.length).map l.take

/-- The disk with something at a place and with all directories above it. -/
def put (d : Disk) (l : Location) (n : DiskNode) : Disk :=
  let d := (above l).foldl
    (fun d l => if (d.node? l).isNone then d.set l .directory else d) d
  d.set l n

/-- The permissions of a new file. -/
def fileMode : Nat := 0o644

/-- The permissions of a directory. -/
def directoryMode : Nat := 0o755

/-- The permissions of what stands at a place. -/
def mode? (d : Disk) (l : Location) : Option Nat :=
  match d.node? l with
  | some (.file _ mode) => some mode
  | some .directory => some directoryMode
  | none => none

/-- The names in a directory. -/
def names (d : Disk) (l : Location) : List Path.Segment :=
  d.nodes.filterMap fun e => if e.1 ≠ [] ∧ e.1.dropLast = l then e.1.getLast? else none

/-- Everything below a place in order, by its path from there. A directory ends in a slash. -/
def listing (d : Disk) (l : Location) : List String :=
  d.nodes.filterMap (fun e =>
    if l.isPrefixOf e.1 ∧ l ≠ e.1 then
      let slash := if e.2 = .directory then ['/'] else []
      some (String.ofList (Path.join (e.1.drop l.length) ++ slash))
    else none) |> sortOnce fun s t => s < t

end Disk

end EventSchema
