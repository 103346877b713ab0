import EventSchema.Disk
import EventSchema.Glob.Pattern

/-!
# Searching a disk

The places on a disk that a path pattern means. A component that is a plain name is followed without
looking at the directory; any other component is compared with the names in it. The path to a place
is not settled on the way, so it may be too long for the system though the place is near.

* `Disk.directoriesFrom` — a directory and all directories below it;
* `Glob.Spot` — where a search has come to;
* `Glob.find` — the places that some components mean from there on;
* `Disk.matchesOf`, `Disk.documents` — the places that a pattern means, and the paths of the files
  among them.
-/

namespace EventSchema

namespace Disk

/-- The depth of the deepest place. -/
def depth (d : Disk) : Nat := d.nodes.foldl (fun n e => max n e.1.length) 0

/-- A directory and the directories below it, down to some depth. -/
def directoriesWithin (d : Disk) : Nat → Location → List Location
  | 0, _ => []
  | depth + 1, l =>
    if d.hasDirectory l then
      l :: (d.names l).flatMap fun s => directoriesWithin d depth (l ++ [s])
    else []

/-- A directory and all directories below it. -/
def directoriesFrom (d : Disk) (l : Location) : List Location := d.directoriesWithin (d.depth + 1) l

end Disk

namespace Glob

/-- Whether a name fits a component. -/
def Component.fits (s : Path.Segment) : Component → Bool
  | anyDirectories => false
  | literal name => s = name
  | wild ts => matchesName ts s

/-- Where a search has come to. -/
structure Spot where
  place : Location
  /-- the bytes of the path on which the search came here -/
  length : Nat
  /-- whether the search is still at the working directory, whose name is no part of a path -/
  fresh : Bool

namespace Spot

/-- The spot that a name means from another one. An empty name ends a path in a slash. -/
def enter (s : Spot) (name : Path.Segment) : Spot :=
  ⟨Disk.step s.place name,
    if s.fresh then Disk.size name else if name = [] then s.length
      else s.length + 1 + Disk.size name,
    s.fresh && name = ['.']⟩

/-- Whether the system takes the path of a spot. -/
def isReachable (s : Spot) : Bool := s.length ≤ Disk.pathLimit

/-- Whether there is a directory at a spot. -/
def isDirectory (d : Disk) (s : Spot) : Bool := s.isReachable && d.hasDirectory s.place

end Spot

/-- The names at a spot that fit a component. -/
def entries (d : Disk) (s : Spot) (c : Component) : List Path.Segment :=
  if s.isDirectory d then (d.names s.place).filter (c.fits ·) else []

/-- The names of the directory itself and of the one above it, as far as they fit. Only a pattern
with a dot in front can mean them. -/
def dotEntries (d : Disk) (s : Spot) (ts : List Token) : List Path.Segment :=
  if s.isDirectory d && ts.head? = some (.char '.') then
    [['.'], ['.', '.']].filter (matchesName ts)
  else []

/-- Whether a plain name means something at a spot. An empty name means the directory itself, but
not the working directory as long as that is no part of the path. -/
def hasLiteral (d : Disk) (s : Spot) (name : Path.Segment) : Bool :=
  s.isDirectory d &&
    if name = [] then !s.fresh
    else name = ['.'] || name = ['.', '.'] ||
      ((s.enter name).isReachable && (d.node? (s.enter name).place).isSome)

/-- The places that some components mean from a spot on. After `**` a component is compared with the
names in every directory below. -/
def find (d : Disk) : List Component → Spot → List Location
  | [], s => [s.place]
  | .literal name :: rest, s => if hasLiteral d s name then find d rest (s.enter name) else []
  | .wild ts :: rest, s =>
    (entries d s (.wild ts) ++ dotEntries d s ts).flatMap fun name => find d rest (s.enter name)
  | [.anyDirectories], s => (d.directoriesFrom s.place).filter (· ≠ s.place)
  | .anyDirectories :: c :: rest, s =>
    (d.directoriesFrom s.place).flatMap fun l =>
      let below := (l.drop s.place.length).foldl Spot.enter s
      (entries d below c).flatMap fun name => find d rest (below.enter name)

end Glob

namespace Disk

/-- The places that a pattern means. -/
def matchesOf (d : Disk) (p : Glob.PathPattern) : List Location :=
  let found := Glob.find d p.components
    (if p.absolute then ⟨[], 0, false⟩ else ⟨d.working, 1, true⟩)
  if p.onlyDirectories then found.filter d.hasDirectory else found

/-- The paths of the files that a pattern means, in order. -/
def documents (d : Disk) (p : Glob.PathPattern) : List DocumentPath :=
  ((d.matchesOf p).filter fun l => !d.hasDirectory l).map DocumentPath.ofSegments
    |> sortOnce DocumentPath.before

end Disk

end EventSchema
