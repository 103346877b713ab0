import EventSchema.Proofs.Catalogs
import EventSchema.Proofs.ModuleText

/-!
# More documents

Documents that are added to a library change nothing about those that were there.

* `Library.Includes` — one library has all documents of another, with the same texts;
* `parse_of_includes`, `inlined_of_includes`, `declares_of_includes` — trees, contents and events
  are kept;
* `events_eq_filter` — so the events of the smaller library are a part of those of the larger;
* `compose_added` — and its module is that of the larger library without the blocks of the added
  documents.
-/

namespace EventSchema

/-- A library has all documents of another, with the same texts. -/
structure Library.Includes (more lib : Library) : Prop where
  documents : ∀ p ∈ lib.documents, p ∈ more.documents
  source : ∀ p ∈ lib.documents, ∀ text, lib.source p = .ok text → more.source p = .ok text

namespace Library

/-- Texts that are put in front of others add documents: the last text under a path counts. -/
theorem includes_append (added texts : List (DocumentPath × String)) :
    (ofTexts (added ++ texts)).Includes (ofTexts texts) := by
  refine ⟨fun p hp => ?_, fun p _ text htext => ?_⟩
  · obtain ⟨text, htext⟩ := mem_documents_ofTexts.1 hp
    exact mem_documents_ofTexts.2 ⟨text, List.mem_append_right _ htext⟩
  · rw [source_ofTexts_eq_ok] at htext
    rw [source_ofTexts_eq_ok, List.reverse_append, List.lookup_append, htext, Option.some_or]

variable {lib more : Library} {p : DocumentPath} {raw t : Tree} {title : String} {n : Nat}

/-- A document keeps its tree. -/
theorem parse_of_includes (hmore : more.Includes lib) (h : lib.parse p = .ok raw) :
    more.parse p = .ok raw := by
  obtain ⟨hp, text, hsource, hparse⟩ := parse_eq_ok_iff.1 h
  exact parse_eq_ok_iff.2 ⟨hmore.documents p hp, text, hmore.source p hp text hsource, hparse⟩

/-- A document keeps its content. -/
theorem inlined_of_includes (hmore : more.Includes lib) (h : lib.inlined n p = some t) :
    more.inlined n p = some t := by
  induction n generalizing p t with
  | zero => cases h
  | succ n ih =>
    exact inlined_succ_of_kept (fun _ => parse_of_includes hmore) (fun _ _ hu => ih hu) h

/-- A document keeps its event. -/
theorem declares_of_includes (hmore : more.Includes lib) (h : lib.Declares p title t) :
    more.Declares p title t := by
  obtain ⟨hcontent, htitle⟩ := declares_iff.1 h
  have hinlined := inlined_of_includes hmore (content_eq_ok_iff.1 hcontent)
  exact declares_iff.2 ⟨content_of_inlined hinlined, htitle⟩

end Library

open Library TypeScript

variable {lib more : Library} {catalog catalog' : Catalog}

/-- The events of a library are those of a larger one that its documents declare. -/
theorem events_eq_filter (hmore : more.Includes lib) (h : catalog.Lists lib lib.documents)
    (h' : catalog'.Lists more more.documents) :
    catalog.events = catalog'.events.filter fun event => lib.contains event.document := by
  refine eq_of_pairwise_key_lt Event.title h.ordered (h'.ordered.filter _) fun event => ?_
  rw [List.mem_filter, h.mem_iff, h'.mem_iff, contains_iff]
  constructor
  · rintro ⟨hdocument, hdeclares⟩
    exact ⟨⟨hmore.documents _ hdocument, declares_of_includes hmore hdeclares⟩, hdocument⟩
  · rintro ⟨⟨-, hdeclares⟩, hdocument⟩
    -- the smaller library has an event for this document too, and the larger one keeps it
    obtain ⟨title, t, hfound⟩ := h.composable.declares _ hdocument
    obtain ⟨rfl, rfl⟩ := (declares_of_includes hmore hfound).unique hdeclares
    exact ⟨hdocument, hfound⟩

/-- The named events of a smaller catalog are the part of those of the larger catalog that its
documents declare. -/
theorem named_eq_filter {named named' : List (Event × EventNames)}
    (hfilter : catalog.events = catalog'.events.filter fun event => lib.contains event.document)
    (hevents : named.map (·.1) = catalog.events) (hevents' : named'.map (·.1) = catalog'.events)
    (hnames : ∀ e ∈ named, EventNames.ofTitle? e.1.title = some e.2)
    (hnames' : ∀ e ∈ named', EventNames.ofTitle? e.1.title = some e.2) :
    named = named'.filter fun e => lib.contains e.1.document := by
  refine named_unique ?_ hnames fun e he => hnames' e (List.mem_filter.1 he).1
  calc named.map (·.1)
      = catalog'.events.filter fun event => lib.contains event.document := hevents.trans hfilter
    _ = (named'.filter fun e => lib.contains e.1.document).map (·.1) := by
        rw [← hevents', List.filter_map]
        rfl

/-- Added documents stay apart. If a set of documents can be composed, and so can a larger set that
has the same texts for these documents, then every event of the smaller set is one of the larger
set, with the same title, document and schema. If both have modules, the module of the smaller set
is that of the larger set without the blocks of the added documents. -/
theorem compose_added (texts texts' : List (DocumentPath × String))
    (hmore : (ofTexts texts').Includes (ofTexts texts)) (catalog catalog' : Catalog)
    (h : ((ofTexts texts).compose (.start [])).1 = .ok catalog)
    (h' : ((ofTexts texts').compose (.start [])).1 = .ok catalog') :
    (∀ event ∈ catalog.events, event ∈ catalog'.events) ∧
      ∀ options text text', catalog.module options = .ok text →
        catalog'.module options = .ok text' →
          ∃ named : List (Event × EventNames), named.map (·.1) = catalog'.events ∧
            text'.toList = header options ++ named.flatMap (fun e => block options e.1 e.2) ∧
            text.toList = header options ++
              (named.filter fun e => (ofTexts texts).contains e.1.document).flatMap
                fun e => block options e.1 e.2 := by
  have hfilter := events_eq_filter hmore (lists_of_compose_ofTexts h)
    (lists_of_compose_ofTexts h')
  constructor
  · intro event hevent
    rw [hfilter] at hevent
    exact (List.mem_filter.1 hevent).1
  · intro options text text' hmodule hmodule'
    obtain ⟨named, hevents, hnames, htext⟩ := named_of_module hmodule
    obtain ⟨named', hevents', hnames', htext'⟩ := named_of_module hmodule'
    have hnamed := named_eq_filter hfilter hevents hevents' hnames hnames'
    exact ⟨named', hevents', htext', hnamed ▸ htext⟩

/-! ## Two documents and two more -/

/-- A document that refers to another one. -/
def cartTexts : List (DocumentPath × String) :=
  [(⟨["cart.json".toList], by decide⟩,
      "\x7b\"title\":\"Cart Viewed\",\"items\":\x7b\"$ref\":\"item.json\"\x7d\x7d"),
    (⟨["item.json".toList], by decide⟩, "\x7b\"title\":\"Item\"\x7d")]

/-- Two documents more, one in front of the others and one between them. -/
def moreTexts : List (DocumentPath × String) :=
  [(⟨["account.json".toList], by decide⟩,
      "\x7b\"title\":\"Account\",\"extends\":\x7b\"$ref\":\"item.json\"\x7d\x7d"),
    (⟨["entry.json".toList], by decide⟩, "\x7b\"title\":\"Entry\"\x7d")]

/-- The module that some texts are composed to, if there is one. -/
def moduleOf? (texts : List (DocumentPath × String)) : Option String :=
  ((ofTexts texts).compose (.start [])).1.toOption.bind fun catalog =>
    (catalog.module .default).toOption

/-- A module comes from a catalog. -/
theorem exists_catalog_of_moduleOf? (texts : List (DocumentPath × String))
    (h : (moduleOf? texts).isSome = true) :
    ∃ catalog text, ((ofTexts texts).compose (.start [])).1 = .ok catalog ∧
      catalog.module .default = .ok text := by
  obtain ⟨text, htext⟩ := Option.isSome_iff_exists.1 h
  obtain ⟨catalog, hcatalog, hmodule⟩ := Option.bind_eq_some_iff.1 htext
  exact ⟨catalog, text, toOption_eq_some_iff.1 hcatalog, toOption_eq_some_iff.1 hmodule⟩

/-- The larger set keeps the events of the smaller one, and the blocks of its module. -/
theorem compose_cartTexts_added :
    ∃ catalog catalog' text text', ((ofTexts cartTexts).compose (.start [])).1 = .ok catalog ∧
      ((ofTexts (moreTexts ++ cartTexts)).compose (.start [])).1 = .ok catalog' ∧
      catalog.module .default = .ok text ∧ catalog'.module .default = .ok text' ∧
      (∀ event ∈ catalog.events, event ∈ catalog'.events) ∧
      ∃ named : List (Event × EventNames), named.map (·.1) = catalog'.events ∧
        text'.toList = header .default ++ named.flatMap (fun e => block .default e.1 e.2) ∧
        text.toList = header .default ++
          (named.filter fun e => (ofTexts cartTexts).contains e.1.document).flatMap
            fun e => block .default e.1 e.2 := by
  obtain ⟨catalog, text, hcompose, hmodule⟩ :=
    exists_catalog_of_moduleOf? cartTexts (by decide +kernel)
  obtain ⟨catalog', text', hcompose', hmodule'⟩ :=
    exists_catalog_of_moduleOf? (moreTexts ++ cartTexts) (by decide +kernel)
  obtain ⟨hevents, hmodules⟩ := compose_added _ _ (includes_append moreTexts cartTexts) _ _ hcompose
    hcompose'
  exact ⟨catalog, catalog', text, text', hcompose, hcompose', hmodule, hmodule', hevents,
    hmodules _ _ _ hmodule hmodule'⟩

end EventSchema
