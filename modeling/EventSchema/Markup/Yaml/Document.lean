import EventSchema.Markup.Yaml.Node

/-!
# YAML documents

A document with its anchors counted and its aliases tied to them.

An anchor gets the number of different names that came before it. A name that is used again keeps
its place among the names, so that two anchors may get one number; an alias takes the number that
its name has at that point, and means the last node of the document with that number.

* `Node.number?` — the node with numbers in place of names; an alias without an anchor is refused;
* `Document`, `document?` — the root, the numbered nodes, and the number of nodes and ends of
  collections, which bounds how often aliases may be followed.
-/

namespace EventSchema.Markup.Yaml

namespace Node

/-- The number of an anchor that comes after some names, and the names with it. -/
def numberAnchor (names : Keyed Nat) : Option String → Option Nat × Keyed Nat
  | none => (none, names)
  | some name => (some names.length, Keyed.insert name names.length names)

mutual

/-- A node with numbers in place of names, and the names after it. -/
def number? (names : Keyed Nat) : Node String → Option (Node Nat × Keyed Nat)
  | .alias name => (Keyed.find? name names).map fun n => (.alias n, names)
  | .scalar anchor tag text style =>
    let (anchor, names) := numberAnchor names anchor
    some (.scalar anchor tag text style, names)
  | .seq anchor tag items => do
    let (anchor, names) := numberAnchor names anchor
    let (items, names) ← numberItems? names items
    return (.seq anchor tag items, names)
  | .map anchor tag entries => do
    let (anchor, names) := numberAnchor names anchor
    let (entries, names) ← numberEntries? names entries
    return (.map anchor tag entries, names)
termination_by structural n => n

/-- The same for the items of a sequence. -/
def numberItems? (names : Keyed Nat) : List (Node String) → Option (List (Node Nat) × Keyed Nat)
  | [] => some ([], names)
  | item :: items => do
    let (item, names) ← number? names item
    let (items, names) ← numberItems? names items
    return (item :: items, names)
termination_by structural ns => ns

/-- The same for the entries of a map. -/
def numberEntries? (names : Keyed Nat) :
    List (Node String × Node String) → Option (List (Node Nat × Node Nat) × Keyed Nat)
  | [] => some ([], names)
  | (k, v) :: entries => do
    let (k, names) ← number? names k
    let (v, names) ← number? names v
    let (entries, names) ← numberEntries? names entries
    return ((k, v) :: entries, names)
termination_by structural es => es

end

mutual

/-- The nodes with numbers, in the order of the document. -/
def numbered : Node Nat → List (Nat × Node Nat)
  | .alias _ => []
  | .scalar anchor tag text style => anchor.toList.map (·, .scalar anchor tag text style)
  | .seq anchor tag items => anchor.toList.map (·, .seq anchor tag items) ++ numberedItems items
  | .map anchor tag entries =>
    anchor.toList.map (·, .map anchor tag entries) ++ numberedEntries entries
termination_by structural n => n

/-- The same for the items of a sequence. -/
def numberedItems : List (Node Nat) → List (Nat × Node Nat)
  | [] => []
  | item :: items => numbered item ++ numberedItems items
termination_by structural ns => ns

/-- The same for the entries of a map. -/
def numberedEntries : List (Node Nat × Node Nat) → List (Nat × Node Nat)
  | [] => []
  | (k, v) :: entries => numbered k ++ numbered v ++ numberedEntries entries
termination_by structural es => es

end

mutual

/-- The number of nodes and ends of collections. -/
def events : Node Nat → Nat
  | .alias _ => 1
  | .scalar .. => 1
  | .seq _ _ items => 2 + itemEvents items
  | .map _ _ entries => 2 + entryEvents entries
termination_by structural n => n

/-- The same for the items of a sequence. -/
def itemEvents : List (Node Nat) → Nat
  | [] => 0
  | item :: items => events item + itemEvents items
termination_by structural ns => ns

/-- The same for the entries of a map. -/
def entryEvents : List (Node Nat × Node Nat) → Nat
  | [] => 0
  | (k, v) :: entries => events k + events v + entryEvents entries
termination_by structural es => es

end

end Node

/-- A document with its anchors and aliases tied together. -/
structure Document where
  root : Node Nat
  /-- the nodes that aliases may mean; of two with one number the first one counts -/
  targets : List (Nat × Node Nat)
  /-- how often aliases may be followed -/
  jumps : Nat

namespace Document

/-- The document with a root. -/
def ofNode? (root : Node String) : Option Document := do
  let (root, _) ← root.number? []
  return ⟨root, root.numbered.reverse, 100 * root.events⟩

/-- The document that a text spells. -/
def ofText? (text : String) : Option Document := do
  ofNode? (← Node.document? (← tokens? text.toList))

/-- Aliases followed so far are counted; one too many is refused. -/
def follow? (doc : Document) (jumps : Nat) : Node Nat → Option (Node Nat × Nat)
  | .alias n =>
    if jumps < doc.jumps then (doc.targets.lookup n).map (·, jumps + 1) else none
  | node => some (node, jumps)

end Document

end EventSchema.Markup.Yaml
