import EventSchema.Composition.Resolution

/-!
# Catalogs

Each document of a library declares one event under its title. The catalog holds the events in title
order.

* `Event`, `Catalog` — a resolved schema with its title and its document, under the titles;
* `Catalog.events`, `pairwise_title_lt` — the events, which stand in the order of their titles;
* `Catalog.enter`, `enter_cases` — the catalog with the event of one more document;
* `Library.compose` — resolves all documents in path order and enters each into the catalog. The
  first document that fails, has no title or repeats one ends the composition.
-/

namespace EventSchema

/-- The title of a schema. -/
def Tree.title? (t : Tree) : Option String := (t.field? titleKey).bind Tree.string?

/-- An event: its title, the document that declares it, and the resolved schema. -/
@[ext] structure Event where
  title : String
  document : DocumentPath
  schema : Tree
  deriving DecidableEq

/-- The events under their titles, no title twice. -/
@[ext] structure Catalog where
  entries : Keyed Event
  /-- the titles are strictly increasing -/
  sorted : entries.Sorted
  /-- an event stands under its own title -/
  titled : ∀ e ∈ entries, e.1 = e.2.title
  deriving DecidableEq

namespace Catalog

/-- The catalog without events. -/
def empty : Catalog := ⟨[], Keyed.sorted_nil, nofun⟩

/-- The events in title order. -/
def events (catalog : Catalog) : List Event := catalog.entries.map (·.2)

/-- The catalog with one more event, in place of the one with its title. -/
def insert (event : Event) (catalog : Catalog) : Catalog where
  entries := Keyed.insert event.title event catalog.entries
  sorted := catalog.sorted.insert event.title event
  titled := by
    intro e he
    rcases Keyed.eq_or_mem_of_mem_insert he with rfl | he
    · rfl
    · exact catalog.titled e he

/-- The catalog with the event of one more document. -/
def enter (catalog : Catalog) (document : DocumentPath) (schema : Tree) :
    Except ComposeError Catalog :=
  match schema.title? with
  | none => .error (.missingTitle document)
  | some title =>
    match Keyed.find? title catalog.entries with
    | some first => .error (.duplicateTitle title first.document document)
    | none => .ok (catalog.insert ⟨title, document, schema⟩)

/-- A document is entered if its schema has a title, under which no event stands yet. -/
theorem enter_cases (catalog : Catalog) (document : DocumentPath) (schema : Tree) :
    (schema.title? = none ∧ catalog.enter document schema = .error (.missingTitle document)) ∨
      (∃ title first, schema.title? = some title ∧
        Keyed.find? title catalog.entries = some first ∧
        catalog.enter document schema = .error (.duplicateTitle title first.document document)) ∨
      ∃ title, schema.title? = some title ∧ Keyed.find? title catalog.entries = none ∧
        catalog.enter document schema = .ok (catalog.insert ⟨title, document, schema⟩) := by
  rw [enter]
  cases htitle : schema.title? with
  | none => exact .inl ⟨rfl, rfl⟩
  | some title =>
    cases hfirst : Keyed.find? title catalog.entries with
    | some first => exact .inr (.inl ⟨title, first, rfl, hfirst, by simp only [hfirst]⟩)
    | none => exact .inr (.inr ⟨title, rfl, hfirst, by simp only [hfirst]⟩)

/-- The events stand in title order, and no title occurs twice. -/
theorem pairwise_title_lt (catalog : Catalog) :
    catalog.events.Pairwise fun d e => d.title < e.title := by
  have hkeys := List.pairwise_map.1 catalog.sorted
  refine List.pairwise_map.2 (List.Pairwise.imp_of_mem (fun {d e} hd he hlt => ?_) hkeys)
  rwa [catalog.titled d hd, catalog.titled e he] at hlt

end Catalog

/-- Enters the events of some documents in turn. -/
def composeFrom (resolve : Resolver) :
    List DocumentPath → Catalog → Session → Except ComposeError Catalog × Session
  | [], catalog, s => (.ok catalog, s)
  | document :: rest, catalog, s =>
    match resolve document s with
    | (.error e, s) => (.error e, s)
    | (.ok schema, s) =>
      match catalog.enter document schema with
      | .error e => (.error e, s)
      | .ok catalog => composeFrom resolve rest catalog s

/-- The catalog of a library, made in the session of a composer that may have resolved documents
before. -/
def Library.compose (lib : Library) (s : Session) : Except ComposeError Catalog × Session :=
  composeFrom lib.resolveDocument lib.documents .empty s

end EventSchema
