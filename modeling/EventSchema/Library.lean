import EventSchema.Composition.Error

/-!
# Libraries

A library is a fixed set of documents together with a way to have their texts. A document is parsed
when it is first asked for, and its tree is kept in a cache.

* `Library`, `Cache` — the documents in path order, and the trees kept so far;
* `Library.parse` — the tree of one document of the library, without a cache;
* `Library.load` — the same through the cache, which gets one entry more if the document was new;
* `Library.directReferences` — the documents that a document refers to.
-/

namespace EventSchema

/-- Where the text of a document comes from, or why there is none. -/
abbrev Source := DocumentPath → Except String String

/-- The source that holds some texts. Of two texts under one path the last one counts. -/
def Source.ofTexts (texts : List (DocumentPath × String)) : Source := fun path =>
  match texts.reverse.lookup path with
  | some text => .ok text
  | none => .error ("no in-memory document at " ++ path.text)

/-- A set of documents and the source of their texts. -/
structure Library where
  source : Source
  /-- the documents in path order, each once -/
  documents : List DocumentPath

/-- The trees that were parsed so far. -/
abbrev Cache := List (DocumentPath × Tree)

namespace Library

/-- The library of some documents. -/
def ofPaths (source : Source) (paths : List DocumentPath) : Library :=
  ⟨source, sortOnce DocumentPath.before paths⟩

/-- The library of all documents that are held in memory. -/
def ofTexts (texts : List (DocumentPath × String)) : Library :=
  ofPaths (Source.ofTexts texts) (texts.map (·.1))

/-- Whether a document is one of the library. -/
def contains (lib : Library) (path : DocumentPath) : Bool := lib.documents.contains path

/-- How many documents there are and how many are in the cache, as messages show it. -/
def summary (lib : Library) (cache : Cache) : String :=
  "DocumentStore \x7b documents: " ++ toString lib.documents.length ++ ", loaded: " ++
    toString cache.length ++ " \x7d"

/-- The format of a document, from the extension of its path. -/
def format (path : DocumentPath) : Format := Format.ofExtension path.extension?

/-- The tree of a document of the library. -/
def parse (lib : Library) (path : DocumentPath) : Except ComposeError Tree :=
  if lib.contains path then
    match lib.source path with
    | .error reason => .error (.unreadable path reason)
    | .ok text => (Markup.parse (format path) text).mapError (.malformed path)
  else .error (.notEnumerated path)

/-- The tree of a document, from the cache if it is there. A tree that was parsed is kept. -/
def load (lib : Library) (path : DocumentPath) (cache : Cache) :
    Except ComposeError Tree × Cache :=
  match cache.lookup path with
  | some tree => (.ok tree, cache)
  | none =>
    match lib.parse path with
    | .error e => (.error e, cache)
    | .ok tree => (.ok tree, (path, tree) :: cache)

/-- The tree of a document with every reference read from the directory of the document. -/
def located (path : DocumentPath) (tree : Tree) : Tree := tree.resolveReferences path.parent

/-- The documents that the references of a tree name, in path order. -/
def referencedPaths (referrer : DocumentPath) (tree : Tree) :
    Except ComposeError (List DocumentPath) :=
  tree.references.mapM fun reference =>
    (DocumentPath.ofText reference).mapError (.invalidReference referrer reference)

/-- The documents that a document refers to, in path order. They need not be in the library. -/
def directReferences (lib : Library) (path : DocumentPath) (cache : Cache) :
    Except ComposeError (List DocumentPath) × Cache :=
  match lib.load path cache with
  | (.error e, cache) => (.error e, cache)
  | (.ok tree, cache) => (referencedPaths path (located path tree), cache)

end Library

end EventSchema
