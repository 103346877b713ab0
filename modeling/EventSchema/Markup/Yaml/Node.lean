import EventSchema.Keyed
import EventSchema.Markup.Yaml.Token

/-!
# YAML nodes

The tree that the tokens of a document spell, before scalars are read as values.

* `Node` — aliases, scalars, sequences and maps, with their anchors and tags;
* `node?` — the node at the start of some tokens, by recursive descent;
* `document?` — the root of a text that holds at most one document.

The grammar functions take a number of steps that bounds the descent. Between two calls of `node?`
that are nested in each other at least one token is passed, so four steps for each token are enough.
-/

namespace EventSchema.Markup.Yaml

/-- A node of a document. Anchors and aliases are names of the type `ν`. -/
inductive Node (ν : Type) where
  | alias (name : ν)
  | scalar (anchor : Option ν) (tag : Option Tag) (text : String) (style : Style)
  | seq (anchor : Option ν) (tag : Option Tag) (items : List (Node ν))
  | map (anchor : Option ν) (tag : Option Tag) (entries : List (Node ν × Node ν))

namespace Node

/-- The node that is meant where none is written. -/
def empty {ν : Type} : Node ν := .scalar none none "" .plain

/-- Reads something at the start of some tokens, and passes the tokens after it. -/
abbrev Reader (α : Type) := List Token → Option (α × List Token)

/-- Where a node stands. Outside flow collections it may be a block collection, and as a key or a
value of a block map it may be a sequence that is not indented. -/
inductive Place where
  | item
  | entry
  | flow
  deriving DecidableEq

/-- What is written in front of a node. -/
structure Properties where
  anchor : Option String
  tag : Option Tag

/-- What a written tag says. -/
def tag? (handles : Handles) (written : Shorthand) : Option Tag :=
  (written.full? handles).map Tag.ofBytes

/-- An anchor and a tag, in either order, each of them at most once. -/
def properties? (handles : Handles) : Reader Properties
  | .anchor name :: .tag t :: ts => do return (⟨some name, ← tag? handles t⟩, ts)
  | .anchor name :: ts => some (⟨some name, none⟩, ts)
  | .tag t :: .anchor name :: ts => do return (⟨some name, ← tag? handles t⟩, ts)
  | .tag t :: ts => do return (⟨none, ← tag? handles t⟩, ts)
  | ts => some (⟨none, none⟩, ts)

/-- Properties alone stand for an empty node. -/
def ofProperties? (p : Properties) : Reader (Node String) := fun ts =>
  if p.anchor.isSome || p.tag.isSome then some (.scalar p.anchor p.tag "" .plain, ts) else none

/-- A node, which is empty in front of some tokens. -/
def orEmpty (ends : Token → Bool) (read : Reader (Node String)) : Reader (Node String) := fun ts =>
  if ts.head?.any ends then some (empty, ts) else read ts

/-- The tokens after an item of a block sequence. -/
def endsItem : Token → Bool
  | .blockEntry => true
  | .blockEnd => true
  | _ => false

/-- The tokens after a key or a value of a block map. -/
def endsEntry : Token → Bool
  | .key => true
  | .value => true
  | .blockEnd => true
  | _ => false

/-- The tokens after an item of a sequence in a block map that is not indented. -/
def endsFlatItem (t : Token) : Bool := t = .blockEntry || endsEntry t

/-- The tokens after the value of a pair in a flow sequence. -/
def endsFlowItem : Token → Bool
  | .flowEntry => true
  | .flowSeqEnd => true
  | _ => false

/-- The tokens after a value in a flow map. -/
def endsFlowEntry : Token → Bool
  | .flowEntry => true
  | .flowMapEnd => true
  | _ => false

/-- A value, which is empty without its indicator. -/
def valueOrEmpty (ends : Token → Bool) (read : Reader (Node String)) : Reader (Node String)
  | .value :: ts => orEmpty ends read ts
  | ts => some (empty, ts)

/-- The tokens from an entry of a flow collection on; all but the first have a comma in front. -/
def flowEntry? (first : Bool) : List Token → Option (List Token)
  | .flowEntry :: ts => if first then some (.flowEntry :: ts) else some ts
  | ts => if first then some ts else none

/-- A pair in a flow sequence after the indicator of its key. Where the key is empty, the token
after it is passed as well. -/
def flowPair? (read : Reader (Node String)) : Reader (Node String) := fun ts => do
  let (k, ts) ←
    if ts.head?.any fun t => t = .value || endsFlowItem t then some (empty, ts.tail) else read ts
  let (v, ts) ← valueOrEmpty endsFlowItem read ts
  return (.map none none [(k, v)], ts)

mutual

/-- The node at the start of some tokens. -/
def node? (handles : Handles) (place : Place) : Nat → Reader (Node String)
  | 0, _ => none
  | _ + 1, .alias name :: ts => some (.alias name, ts)
  | steps + 1, ts => do
    let (p, ts) ← properties? handles ts
    match ts with
    | .scalar text style :: ts => return (.scalar p.anchor p.tag text style, ts)
    | .flowSeqStart :: ts => do
      let (items, ts) ← flowItems? handles steps true ts
      return (.seq p.anchor p.tag items, ts)
    | .flowMapStart :: ts => do
      let (entries, ts) ← flowEntries? handles steps true ts
      return (.map p.anchor p.tag entries, ts)
    | .blockSeqStart :: rest =>
      if place = .flow then ofProperties? p ts
      else do
        let (items, ts) ← blockItems? handles steps rest
        return (.seq p.anchor p.tag items, ts)
    | .blockMapStart :: rest =>
      if place = .flow then ofProperties? p ts
      else do
        let (entries, ts) ← blockEntries? handles steps rest
        return (.map p.anchor p.tag entries, ts)
    | .blockEntry :: _ =>
      if place = .entry then do
        let (items, ts) ← flatItems? handles steps ts
        return (.seq p.anchor p.tag items, ts)
      else ofProperties? p ts
    | _ => ofProperties? p ts

/-- The items of a block sequence and its end. -/
def blockItems? (handles : Handles) : Nat → Reader (List (Node String))
  | steps + 1, .blockEntry :: ts => do
    let (item, ts) ← orEmpty endsItem (node? handles .item steps) ts
    let (items, ts) ← blockItems? handles steps ts
    return (item :: items, ts)
  | _, .blockEnd :: ts => some ([], ts)
  | _, _ => none

/-- The items of a sequence that is not indented; it ends where no item starts. -/
def flatItems? (handles : Handles) : Nat → Reader (List (Node String))
  | steps + 1, .blockEntry :: ts => do
    let (item, ts) ← orEmpty endsFlatItem (node? handles .item steps) ts
    let (items, ts) ← flatItems? handles steps ts
    return (item :: items, ts)
  | _, ts => some ([], ts)

/-- The entries of a block map and its end. -/
def blockEntries? (handles : Handles) : Nat → Reader (List (Node String × Node String))
  | steps + 1, .key :: ts => do
    let (k, ts) ← orEmpty endsEntry (node? handles .entry steps) ts
    let (v, ts) ← valueOrEmpty endsEntry (node? handles .entry steps) ts
    let (entries, ts) ← blockEntries? handles steps ts
    return ((k, v) :: entries, ts)
  | _, .blockEnd :: ts => some ([], ts)
  | _, _ => none

/-- The items of a flow sequence and its end. -/
def flowItems? (handles : Handles) : Nat → Bool → Reader (List (Node String))
  | 0, _, _ => none
  | _ + 1, _, .flowSeqEnd :: ts => some ([], ts)
  | steps + 1, first, ts => do
    match ← flowEntry? first ts with
    | .flowSeqEnd :: ts => return ([], ts)
    | .key :: ts => do
      let (item, ts) ← flowPair? (node? handles .flow steps) ts
      let (items, ts) ← flowItems? handles steps false ts
      return (item :: items, ts)
    | ts => do
      let (item, ts) ← node? handles .flow steps ts
      let (items, ts) ← flowItems? handles steps false ts
      return (item :: items, ts)

/-- The entries of a flow map and its end. A node that is not marked as a key has no value. -/
def flowEntries? (handles : Handles) :
    Nat → Bool → Reader (List (Node String × Node String))
  | 0, _, _ => none
  | _ + 1, _, .flowMapEnd :: ts => some ([], ts)
  | steps + 1, first, ts => do
    match ← flowEntry? first ts with
    | .flowMapEnd :: ts => return ([], ts)
    | .key :: ts => do
      let (k, ts) ←
        orEmpty (fun t => t = .value || endsFlowEntry t) (node? handles .flow steps) ts
      let (v, ts) ← valueOrEmpty endsFlowEntry (node? handles .flow steps) ts
      let (entries, ts) ← flowEntries? handles steps false ts
      return ((k, v) :: entries, ts)
    | ts => do
      let (k, ts) ← node? handles .flow steps ts
      let (entries, ts) ← flowEntries? handles steps false ts
      return ((k, empty) :: entries, ts)

end

/-! ## Documents -/

/-- The directives in front of a document: a version, at most once and 1.1 or 1.2, and handles, each
at most once. -/
def directives? :
    List Token → (versioned : Bool) → Handles → Option (Handles × List Token)
  | .version major minor :: ts, versioned, handles =>
    if !versioned && major = 1 && (minor = 1 || minor = 2) then directives? ts true handles
    else none
  | .tagHandle handle uri :: ts, versioned, handles =>
    if Keyed.has handle handles then none
    else directives? ts versioned (Keyed.insert handle uri handles)
  | ts, _, handles => some (handles, ts)

/-- The tokens in front of which a document is empty. -/
def endsDocument : Token → Bool
  | .version .. => true
  | .tagHandle .. => true
  | .documentStart => true
  | .documentEnd => true
  | _ => false

/-- A document that is announced, after its directives and its start marker. -/
def announced? : Reader (Node String) := fun ts => do
  match ← directives? ts false [] with
  | (handles, .documentStart :: ts) =>
    if ts.head?.all endsDocument then return (empty, ts)
    else node? (Keyed.insertAll defaultHandles handles) .item (4 * ts.length + 4) ts
  | _ => none

/-- Whether a document starts with a directive or a start marker. -/
def isAnnounced : Token → Bool
  | .documentEnd => false
  | t => endsDocument t

/-- The root of the only document. A text without tokens is empty. -/
def document? (ts : List Token) : Option (Node String) := do
  if ts.isEmpty then return empty
  let (root, ts) ←
    if ts.head?.any isAnnounced then announced? ts
    else node? defaultHandles .item (4 * ts.length + 4) ts
  if ts.all (· = .documentEnd) then return root else none

end Node

end EventSchema.Markup.Yaml
