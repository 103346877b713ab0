import EventSchema.TypeScript.Module
import Mathlib.Data.List.Forall2

/-!
# What the text of a module depends on

* `module_congr` — of the events of a catalog, only the titles and the schemas go into its module;
* `names_of_nameEventsAfter` — the names of an event depend on its own title alone, so a catalog has
  one list of named events at most (`named_unique`).
-/

namespace EventSchema

namespace TypeScript

variable {given : GivenNames} {events : List Event} {named : List (Event × EventNames)}

/-- The document that declares an event does not show in its block. -/
theorem block_congr {d e : Event} (htitle : d.title = e.title) (hschema : d.schema = e.schema)
    (options : ModuleOptions) (names : EventNames) :
    block options d names = block options e names := by
  obtain ⟨title, _, schema⟩ := d
  obtain ⟨title', _, schema'⟩ := e
  obtain rfl : title = title' := htitle
  obtain rfl : schema = schema' := hschema
  rfl

/-- The blocks of some events, after some names were given, depend on their titles and schemas. -/
theorem blocks_congr {events events' : List Event} (options : ModuleOptions)
    (h : List.Forall₂ (fun d e => d.title = e.title ∧ d.schema = e.schema) events events')
    (given : GivenNames) :
    (nameEventsAfter given events).map (fun named => named.flatMap fun e => block options e.1 e.2) =
      (nameEventsAfter given events').map
        (fun named => named.flatMap fun e => block options e.1 e.2) := by
  induction h generalizing given with
  | nil => rfl
  | @cons d e _ _ hde _ ih =>
    simp only [nameEventsAfter, hde.1]
    cases hgive : given.give e.title with
    | error e => rfl
    | ok answer =>
      obtain ⟨names, given'⟩ := answer
      have hrest := ih given'
      simp only [bind, Except.bind]
      cases hd : nameEventsAfter given' _ <;> cases he : nameEventsAfter given' _ <;>
        simp_all [Except.map, pure, Except.pure, block_congr hde.1 hde.2]

/-- The names of an event are those of its title. -/
theorem names_of_give {title : String} {names : EventNames} {given' : GivenNames}
    (h : given.give title = .ok (names, given')) : EventNames.ofTitle? title = some names := by
  rw [GivenNames.give] at h
  cases hnames : EventNames.ofTitle? title with
  | none => simp [hnames] at h
  | some found =>
    simp only [hnames] at h
    split at h
    · cases h
    · cases h
    · simp only [Except.ok.injEq, Prod.mk.injEq] at h
      rw [h.1]

/-- Each event is named, by its own title. -/
theorem names_of_nameEventsAfter (h : nameEventsAfter given events = .ok named) :
    named.map (·.1) = events ∧ ∀ e ∈ named, EventNames.ofTitle? e.1.title = some e.2 := by
  induction events generalizing given named with
  | nil =>
    obtain rfl := Except.ok.inj h
    exact ⟨rfl, nofun⟩
  | cons event rest ih =>
    rw [nameEventsAfter] at h
    cases hgive : given.give event.title with
    | error e => simp [hgive, bind, Except.bind] at h
    | ok answer =>
      obtain ⟨names, given'⟩ := answer
      cases hrest : nameEventsAfter given' rest with
      | error e => simp [hgive, hrest, bind, Except.bind] at h
      | ok more =>
        simp only [hgive, hrest, bind, Except.bind, pure, Except.pure, Except.ok.injEq] at h
        subst h
        obtain ⟨hmap, hnames⟩ := ih hrest
        refine ⟨by rw [List.map_cons, hmap], fun e he => ?_⟩
        rcases List.mem_cons.1 he with rfl | he
        · exact names_of_give hgive
        · exact hnames e he

/-- Events have one list of names at most. -/
theorem named_unique {named' : List (Event × EventNames)}
    (hmap : named.map (·.1) = named'.map (·.1))
    (h : ∀ e ∈ named, EventNames.ofTitle? e.1.title = some e.2)
    (h' : ∀ e ∈ named', EventNames.ofTitle? e.1.title = some e.2) : named = named' := by
  induction named generalizing named' with
  | nil => exact (List.map_eq_nil_iff.1 hmap.symm).symm
  | cons e rest ih =>
    cases named' with
    | nil => cases hmap
    | cons e' rest' =>
      obtain ⟨hfirst, hrest⟩ := List.cons.inj hmap
      obtain ⟨event, names⟩ := e
      obtain ⟨event', names'⟩ := e'
      obtain rfl : event = event' := hfirst
      have hnames := (h (event, names) List.mem_cons_self).symm.trans
        (h' (event, names') List.mem_cons_self)
      obtain rfl : names = names' := Option.some.inj hnames
      rw [ih hrest (fun e he => h e (List.mem_cons_of_mem _ he)) fun e he =>
        h' e (List.mem_cons_of_mem _ he)]

end TypeScript

open TypeScript

variable {catalog catalog' : Catalog} {options : ModuleOptions} {text : String}

/-- Catalogs whose events have the same titles and the same schemas have the same module, or fail
to have one for the same reason. -/
theorem module_congr
    (h : List.Forall₂ (fun d e => d.title = e.title ∧ d.schema = e.schema) catalog.events
      catalog'.events) (options : ModuleOptions) :
    catalog.module options = catalog'.module options := by
  have hblocks := blocks_congr options h ⟨[], []⟩
  simp only [Catalog.module, nameEvents, moduleText, bind, Except.bind]
  cases hd : nameEventsAfter ⟨[], []⟩ catalog.events <;>
    cases he : nameEventsAfter ⟨[], []⟩ catalog'.events <;> simp_all [Except.map]

/-- The module of a catalog is the header and the blocks of its named events. -/
theorem named_of_module (h : catalog.module options = .ok text) :
    ∃ named : List (Event × EventNames), named.map (·.1) = catalog.events ∧
      (∀ e ∈ named, EventNames.ofTitle? e.1.title = some e.2) ∧
      text.toList = header options ++ named.flatMap fun e => block options e.1 e.2 := by
  rw [Catalog.module] at h
  cases hnamed : nameEvents catalog.events with
  | error e => simp [hnamed, bind, Except.bind] at h
  | ok named =>
    simp only [hnamed, bind, Except.bind, pure, Except.pure, Except.ok.injEq] at h
    obtain ⟨hmap, hnames⟩ := names_of_nameEventsAfter hnamed
    exact ⟨named, hmap, hnames, by rw [← h, String.toList_ofList, moduleText]⟩

end EventSchema
