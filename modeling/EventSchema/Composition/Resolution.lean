import EventSchema.Library

/-!
# Resolution

A document is resolved by resolving the documents that it refers to, putting them in place of the
markers, and joining what the document inherits.

* `Session` — the trees parsed and the documents resolved so far, and those in progress;
* `Session.cycle?` — a document that is in progress closes a cycle;
* `resolveWithin` — resolution while only so many more documents may be in progress;
* `Library.resolve` — resolution of a document of the library.

As many documents as the library has can be in progress at once. Where no more may be, a document
that is not among them cannot be one of the library.
-/

namespace EventSchema

/-- What is known between two steps of a resolution. -/
structure Session where
  cache : Cache
  /-- the documents resolved so far -/
  resolved : List (DocumentPath × Tree)
  /-- the documents that are being resolved, each one referred to by the one before it -/
  inProgress : List DocumentPath

namespace Session

/-- The session in which nothing was resolved yet. -/
def start (cache : Cache) : Session := ⟨cache, [], []⟩

/-- The content of a document that was resolved. -/
def content? (s : Session) (path : DocumentPath) : Option Tree := s.resolved.lookup path

/-- The cycle that a document in progress closes. -/
def cycle? (s : Session) (path : DocumentPath) : Option (List DocumentPath) :=
  match s.inProgress.dropWhile (· != path) with
  | [] => none
  | cycle => some (cycle ++ [path])

/-- The session in which one more document is in progress. -/
def enter (s : Session) (path : DocumentPath) : Session :=
  { s with inProgress := s.inProgress ++ [path] }

/-- The session in which the last document in progress is no more so. -/
def leave (s : Session) : Session := { s with inProgress := s.inProgress.dropLast }

/-- The session that keeps the content of a document. -/
def keep (s : Session) (path : DocumentPath) (content : Tree) : Session :=
  { s with resolved := (path, content) :: s.resolved }

/-- A step that is about the cache alone. -/
def withCache {α : Type} (s : Session) (step : Cache → α × Cache) : α × Session :=
  let (result, cache) := step s.cache
  (result, { s with cache })

end Session

/-- A way to have the content of a document in a session. -/
abbrev Resolver := DocumentPath → Session → Except ComposeError Tree × Session

/-- The contents of some targets in turn. A target must be in the library. -/
def resolveTargets (lib : Library) (resolve : Resolver) (referrer : DocumentPath) :
    List DocumentPath → Session → Except ComposeError (List (DocumentPath × Tree)) × Session
  | [], s => (.ok [], s)
  | target :: rest, s =>
    if lib.contains target then
      match resolve target s with
      | (.error e, s) => (.error e, s)
      | (.ok content, s) =>
        match resolveTargets lib resolve referrer rest s with
        | (.error e, s) => (.error e, s)
        | (.ok more, s) => (.ok ((target, content) :: more), s)
    else (.error (.unresolvedReference referrer target), s)

/-- The content of a target, by the text of its path. -/
def contentAt? (contents : List (DocumentPath × Tree)) (target : String) : Option Tree :=
  contents.findSome? fun e => if e.1.text = target then some e.2 else none

/-- A tree with its markers replaced and with what it inherits. -/
def assemble (path : DocumentPath) (tree : Tree) (contents : List (DocumentPath × Tree)) :
    Except ComposeError Tree :=
  (tree.substitute (contentAt? contents)).inherit.mapError (.invalidExtends path)

/-- The content of a document, once there is a way to have the contents of its targets. -/
def resolveWith (lib : Library) (resolve : Resolver) : Resolver := fun path s =>
  match s.withCache (lib.load path) with
  | (.error e, s) => (.error e, s)
  | (.ok raw, s) =>
    let tree := Library.located path raw
    match Library.referencedPaths path tree with
    | .error e => (.error e, s)
    | .ok targets =>
      match resolveTargets lib resolve path targets s with
      | (.error e, s) => (.error e, s)
      | (.ok contents, s) => (assemble path tree contents, s)

/-- The content of a document while so many more documents may be in progress. -/
def resolveWithin (lib : Library) (room : Nat) : Resolver := fun path s =>
  match s.content? path with
  | some content => (.ok content, s)
  | none =>
    match s.cycle? path with
    | some cycle => (.error (.referenceCycle cycle), s)
    | none =>
      match room with
      | 0 => (.error (.notEnumerated path), s)
      | room + 1 =>
        match resolveWith lib (resolveWithin lib room) path (s.enter path) with
        | (.error e, s) => (.error e, s.leave)
        | (.ok content, s) => (.ok content, s.leave.keep path content)

namespace Library

/-- The content of a document, which is kept in the session if it was new. -/
def resolveDocument (lib : Library) : Resolver := resolveWithin lib lib.documents.length

/-- The content of a document of the library. -/
def resolve (lib : Library) : Resolver := fun path s =>
  if lib.contains path then lib.resolveDocument path s else (.error (.notEnumerated path), s)

end Library

end EventSchema
