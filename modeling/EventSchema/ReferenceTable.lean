import EventSchema.Compilation

/-!
# Reference tables

For each document of a library the documents that it refers to, both in path order.

* `Library.referenceTable` — the table, or the first document that cannot be read;
* `ReferenceTable.text`, `json` — the table as text and as a JSON object;
* `ReferenceTable.dangling` — the references to documents outside the library.
-/

namespace EventSchema

/-- The documents of a library with the documents that they refer to. -/
abbrev ReferenceTable := List (DocumentPath × List DocumentPath)

/-- Why there is no table. -/
inductive ReferencesError where
  | enumeration (cause : EnumerationError)
  /-- a document cannot be read -/
  | document (path : DocumentPath) (cause : ComposeError)

namespace ReferencesError

/-- What was being done. -/
def context? : ReferencesError → Option String
  | enumeration _ => none
  | document path _ => some ("failed to read references of " ++ path.text)

/-- The text of an error, after what was being done. -/
def message (e : ReferencesError) : String :=
  match e with
  | enumeration cause => cause.message
  | document _ cause => (e.context?.getD "") ++ ": " ++ cause.message

end ReferencesError

/-- The rows of some documents, each loaded in turn. -/
def Library.referenceRows (lib : Library) :
    List DocumentPath → Cache → Except ReferencesError ReferenceTable × Cache
  | [], cache => (.ok [], cache)
  | path :: rest, cache =>
    match lib.directReferences path cache with
    | (.error e, cache) => (.error (.document path e), cache)
    | (.ok targets, cache) =>
      match lib.referenceRows rest cache with
      | (.error e, cache) => (.error e, cache)
      | (.ok rows, cache) => (.ok ((path, targets) :: rows), cache)

/-- The table of a library. -/
def Library.referenceTable (lib : Library) : Except ReferencesError ReferenceTable :=
  (lib.referenceRows lib.documents []).1

/-- The library of a pattern and its table. -/
def referencesOf (host : Host) (disk : Disk) (pattern : String) :
    Except ReferencesError (Library × ReferenceTable) := do
  let lib ← (openLibrary host disk pattern).mapError .enumeration
  return (lib, ← lib.referenceTable)

namespace ReferenceTable

/-- The line of a reference. -/
def targetLine (lib : Library) (target : DocumentPath) : String :=
  "  -> " ++ target.text ++ (if lib.contains target then "" else " (not enumerated)") ++ "\n"

/-- The lines of a document. -/
def rowText (lib : Library) (row : DocumentPath × List DocumentPath) : String :=
  row.1.text ++ "\n" ++ String.join (row.2.map (targetLine lib))

/-- The table as text. -/
def text (lib : Library) (table : ReferenceTable) : String :=
  String.join (table.map (rowText lib))

/-- The table as a map from documents to lists of targets. -/
def tree (table : ReferenceTable) : Tree :=
  .map (Keyed.ofList (table.map fun row =>
    (row.1.text, .seq (row.2.map fun target => .str target.text))))

/-- The references to documents outside the library. -/
def dangling (lib : Library) (table : ReferenceTable) : List DocumentPath :=
  (table.flatMap (·.2)).filter fun target => !lib.contains target

end ReferenceTable

end EventSchema
