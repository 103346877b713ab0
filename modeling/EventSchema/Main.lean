import EventSchema.CommandLine

/-!
# The program

The files that a run looks at are read first, the run itself is `CommandLine.run`, and what it
changed is written afterwards.
-/

namespace EventSchema.Main

open CommandLine

/-- The segments of a path that is read from a directory. -/
def segmentsFrom (directory path : String) : Location :=
  match DocumentPath.ofFile directory path with
  | .ok p => p.segments
  | .error _ => []

/-- Adds what stands at a path, and everything below it. What cannot be read is left out. -/
partial def scan (directory : String) (disk : Disk) (path : String) : IO Disk := do
  let place := (← IO.currentDir) / path
  try
    if ← place.isDir then
      let mut disk := disk.put (segmentsFrom directory path) .directory
      for entry in ← place.readDir do
        disk ← scan directory disk (path ++ "/" ++ entry.fileName)
      return disk
    else
      let content ← IO.FS.readBinFile place
      return disk.put (segmentsFrom directory path) (.file content.toList Disk.fileMode)
  catch _ => return disk

/-- Adds the directory that holds a path, without what is in it. -/
def scanDirectoryOf (directory : String) (disk : Disk) (path : String) : IO Disk := do
  let above := directoryOf path
  if ← ((← IO.currentDir) / above).isDir then
    return disk.put (segmentsFrom directory above) .directory
  else return disk

/-- Writes a file in full beside its path, under a name that is never too long, and moves it
there. -/
def store (path : String) (content : List UInt8) : IO Unit := do
  let unfinished := directoryOf path ++ "/.evgen.tmp"
  IO.FS.writeBinFile unfinished ⟨content.toArray⟩
  IO.FS.rename unfinished path
  IO.setAccessRights path ⟨⟨true, true, false⟩, ⟨true, false, false⟩, ⟨true, false, false⟩⟩

/-- Writes the files that a run changed. -/
def storeChanges (before after : Disk) : IO Unit := do
  for (place, node) in after.nodes do
    match node with
    | .file content _ =>
      if before.node? place != some node then
        store (String.ofList ('/' :: Path.join place)) content
    | .directory => pure ()

/-- The settings file that some words name. -/
def configOf (words : List String) : Option String :=
  match parse words with
  | .ok invocation => invocation.config
  | .error _ => none

/-- Runs the program in the working directory. -/
def runHere (words : List String) : IO Outcome := do
  let directory := (← IO.currentDir).toString
  let pattern ← IO.getEnv Setting.pattern.environmentName
  let output ← IO.getEnv Setting.output.environmentName
  let environment (name : String) : Option String :=
    if name = Setting.pattern.environmentName then pattern
    else if name = Setting.output.environmentName then output
    else none
  let working := segmentsFrom directory "."
  let empty := (⟨[], working⟩ : Disk).put working .directory
  let settled ← (configOf words).toList.foldlM (scan directory) empty
  let paths := places settled environment words
  let disk ← paths.foldlM (scanDirectoryOf directory) settled
  let disk ← paths.foldlM (scan directory) disk
  let (outcome, after) := run .reliable disk environment words
  storeChanges disk after
  return outcome

end EventSchema.Main

/-- The program. -/
def main (words : List String) : IO UInt32 := do
  try
    let outcome ← EventSchema.Main.runHere words
    IO.print outcome.stdout
    for entry in outcome.log do
      IO.eprintln (entry.line outcome.logFormat)
    return UInt32.ofNat outcome.code
  catch e =>
    IO.eprintln ("ERROR " ++ toString e)
    return 1
