import EventSchema.Proofs.Catalogs
import EventSchema.Proofs.ModuleText
import EventSchema.Proofs.Placement

/-!
# Relocation

Documents that refer only to each other can be moved to another directory together.

* `RelativeDocument`, `Library.placed` — documents that stand below a directory;
* `parse_placed`, `inlined_placed` — a document has the same tree and the same content below every
  directory;
* `Catalog.below`, `eq_below_of_lists` — so the catalogs differ in the documents of their events
  only;
* `compose_relocated` — and the modules are the same.
-/

namespace EventSchema

/-- A document of a set that stands below some directory. -/
structure RelativeDocument where
  path : RelativePath
  text : String

namespace RelativeDocument

/-- Whether no reference of the document climbs above the directory that the set stands below. -/
def staysBelow (d : RelativeDocument) : Bool :=
  match Markup.parse (Library.format d.path.toDocumentPath) d.text with
  | .ok raw => raw.targets.all d.path.staysBelow
  | .error _ => true

end RelativeDocument

namespace Library

/-- The library of some documents below a directory. -/
def placed (docs : List RelativeDocument) (directory : DocumentPath) : Library :=
  ofTexts (docs.map fun d => (d.path.under directory, d.text))

variable {docs : List RelativeDocument} {directory p q : DocumentPath} {raw t : Tree}
  {title : String}

/-! ## Trees and contents -/

/-- A text of a set is found below the directory where it was found before. -/
theorem lookup_placed (docs : List RelativeDocument) (directory q : DocumentPath) :
    (docs.map fun d => (d.path.under directory, d.text)).lookup (directory.below q) =
      (docs.map fun d => (d.path.under .root, d.text)).lookup q := by
  induction docs with
  | nil => rfl
  | cons d rest ih =>
    have hpath : (directory.below q == d.path.under directory) = (q == d.path.under .root) := by
      rw [Bool.eq_iff_iff, beq_iff_eq, beq_iff_eq]
      exact ⟨DocumentPath.below_injective, fun h => congrArg directory.below h⟩
    simp only [List.map_cons, List.lookup_cons, hpath, ih]

/-- The documents below a directory. -/
theorem mem_placed :
    p ∈ (placed docs directory).documents ↔
      ∃ q ∈ (placed docs .root).documents, directory.below q = p := by
  simp [placed, ofTexts, ofPaths, mem_sortOnce, RelativePath.under]

/-- A document stands below the directory where it stood before. -/
theorem below_mem_placed :
    directory.below q ∈ (placed docs directory).documents ↔ q ∈ (placed docs .root).documents := by
  rw [mem_placed]
  constructor
  · rintro ⟨q', hq', hbelow⟩
    exact DocumentPath.below_injective hbelow ▸ hq'
  · exact fun hq => ⟨q, hq, rfl⟩

/-- No document stands at the directory itself. -/
theorem segments_ne_nil_of_mem_placed (hq : q ∈ (placed docs .root).documents) :
    q.segments ≠ [] := by
  rw [placed, ofTexts, ofPaths, mem_sortOnce, List.map_map] at hq
  obtain ⟨d, -, rfl⟩ := List.mem_map.1 hq
  exact d.path.nonempty

/-- A document has the same text below every directory. -/
theorem source_placed {text : String} :
    (placed docs directory).source (directory.below q) = .ok text ↔
      (placed docs .root).source q = .ok text := by
  have hlookup := lookup_placed docs.reverse directory q
  rw [List.map_reverse, List.map_reverse] at hlookup
  rw [placed, placed, source_ofTexts_eq_ok, source_ofTexts_eq_ok, hlookup]

/-- A document has the same tree below every directory. -/
theorem parse_placed :
    (placed docs directory).parse (directory.below q) = .ok raw ↔
      (placed docs .root).parse q = .ok raw := by
  rw [parse_eq_ok_iff, parse_eq_ok_iff, below_mem_placed]
  refine and_congr_right fun hq => exists_congr fun text => ?_
  rw [source_placed, DocumentPath.format_below (segments_ne_nil_of_mem_placed hq)]

section

variable (h : ∀ d ∈ docs, d.staysBelow = true)
include h

/-- A reference leads to the same document of the set below every directory. -/
theorem target_placed {r : String} (hraw : (placed docs .root).parse q = .ok raw)
    (hr : r ∈ raw.targets) :
    (directory.below q).target r = directory.below (q.target r) := by
  obtain ⟨hq, text, hsource, hparse⟩ := parse_eq_ok_iff.1 hraw
  obtain ⟨d, hd, heq⟩ := List.mem_map.1 (mem_of_source_ofTexts hsource)
  obtain ⟨rfl, rfl⟩ := Prod.mk.inj heq
  have hstays := h d hd
  rw [RelativePath.under_root] at hparse
  simp only [RelativeDocument.staysBelow, hparse] at hstays
  exact DocumentPath.target_below d.path.nonempty (List.all_eq_true.1 hstays r hr)

/-- A document has the same content below every directory. -/
theorem inlined_placed (directory q : DocumentPath) (n : Nat) :
    (placed docs directory).inlined n (directory.below q) = (placed docs .root).inlined n q := by
  induction n generalizing q with
  | zero => rfl
  | succ n ih =>
    ext t
    rw [inlined_succ_iff_target, inlined_succ_iff_target]
    simp only [parse_placed]
    refine exists_congr fun raw => and_congr_right fun hraw => ?_
    -- the references of the document lead to the same documents, which have a level less
    have hinlined : ∀ r ∈ raw.targets,
        (placed docs directory).inlined n ((directory.below q).target r) =
          (placed docs .root).inlined n (q.target r) := fun r hr => by
      rw [target_placed h hraw hr, ih]
    rw [Tree.substitute_congr raw hinlined]
    refine and_congr_left fun _ => forall₂_congr fun r hr => ?_
    rw [hinlined r hr]

/-- A document declares the same event below every directory. -/
theorem declares_placed :
    (placed docs directory).Declares (directory.below q) title t ↔
      (placed docs .root).Declares q title t := by
  have hcontent : (placed docs directory).content (directory.below q) = .ok t ↔
      (placed docs .root).content q = .ok t := by
    constructor
    · intro hok
      rw [content_eq_ok_iff, inlined_placed h] at hok
      exact content_of_inlined hok
    · intro hok
      rw [content_eq_ok_iff, ← inlined_placed h directory] at hok
      exact content_of_inlined hok
  rw [declares_iff, declares_iff, hcontent]

/-- Documents can be composed below every directory, or below none. -/
theorem composable_placed :
    (placed docs directory).Composable ↔ (placed docs .root).Composable := by
  constructor
  · intro hcomposable
    refine ⟨fun q hq => ?_, fun p hp q hq title t u ht hu => ?_⟩
    · obtain ⟨title, t, hdeclares⟩ := hcomposable.declares _ (below_mem_placed.2 hq)
      exact ⟨title, t, (declares_placed h).1 hdeclares⟩
    · exact DocumentPath.below_injective (hcomposable.distinct _ (below_mem_placed.2 hp) _
        (below_mem_placed.2 hq) _ _ _ ((declares_placed h).2 ht) ((declares_placed h).2 hu))
  · intro hcomposable
    refine ⟨fun p hp => ?_, fun p hp q hq title t u ht hu => ?_⟩
    · obtain ⟨p, hp', rfl⟩ := mem_placed.1 hp
      obtain ⟨title, t, hdeclares⟩ := hcomposable.declares p hp'
      exact ⟨title, t, (declares_placed h).2 hdeclares⟩
    · obtain ⟨p, hp', rfl⟩ := mem_placed.1 hp
      obtain ⟨q, hq', rfl⟩ := mem_placed.1 hq
      exact congrArg directory.below (hcomposable.distinct p hp' q hq' _ _ _
        ((declares_placed h).1 ht) ((declares_placed h).1 hu))

end

end Library

/-! ## Catalogs -/

/-- An event whose document stands below a directory. -/
def Event.below (directory : DocumentPath) (event : Event) : Event :=
  { event with document := directory.below event.document }

/-- A catalog whose documents stand below a directory. -/
def Catalog.below (directory : DocumentPath) (catalog : Catalog) : Catalog where
  entries := catalog.entries.map fun e => (e.1, e.2.below directory)
  sorted := by
    rw [Keyed.Sorted, Keyed.keys, List.map_map]
    exact catalog.sorted
  titled := by
    intro e he
    obtain ⟨found, hfound, rfl⟩ := List.mem_map.1 he
    exact catalog.titled found hfound

open Library

variable {docs : List RelativeDocument} {catalog catalog' : Catalog} {directory : DocumentPath}

/-- The events of a catalog below a directory. -/
theorem events_below (directory : DocumentPath) (catalog : Catalog) :
    (catalog.below directory).events = catalog.events.map (Event.below directory) := by
  simp [Catalog.below, Catalog.events, Function.comp_def]

/-- The catalogs of documents below two directories differ in the documents of the events only. -/
theorem eq_below_of_lists (h : ∀ d ∈ docs, d.staysBelow = true)
    (hroot : catalog.Lists (placed docs .root) (placed docs .root).documents)
    (hdirectory : catalog'.Lists (placed docs directory) (placed docs directory).documents) :
    catalog' = catalog.below directory := by
  refine Catalog.ext_of_mem fun event => ?_
  rw [hdirectory.mem_iff, events_below, List.mem_map]
  constructor
  · rintro ⟨hdocument, hdeclares⟩
    obtain ⟨q, hq, hbelow⟩ := mem_placed.1 hdocument
    rw [← hbelow, declares_placed h] at hdeclares
    refine ⟨⟨event.title, q, event.schema⟩, hroot.mem_iff.2 ⟨hq, hdeclares⟩, ?_⟩
    simp only [Event.below, hbelow]
  · rintro ⟨found, hfound, rfl⟩
    obtain ⟨hdocument, hdeclares⟩ := hroot.mem_iff.1 hfound
    exact ⟨below_mem_placed.2 hdocument, (declares_placed h).2 hdeclares⟩

/-- If documents can be composed, then below every directory, and to the same catalog with other
documents. -/
theorem compose_placed (h : ∀ d ∈ docs, d.staysBelow = true)
    (hroot : ((placed docs .root).compose (.start [])).1 = .ok catalog) (directory : DocumentPath) :
    ((placed docs directory).compose (.start [])).1 = .ok (catalog.below directory) := by
  have hlists : catalog.Lists (placed docs .root) _ := lists_of_compose_ofTexts hroot
  have hcomposable : (placed docs directory).Composable :=
    (composable_placed h).2 hlists.composable
  obtain ⟨catalog', hok⟩ := exists_catalog_ofTexts_iff.2 hcomposable
  have hbelow := eq_below_of_lists h hlists (lists_of_compose_ofTexts hok)
  exact hok.trans (congrArg Except.ok hbelow)

/-- If documents can be composed below a directory, then from the root of the file system. -/
theorem exists_compose_root (h : ∀ d ∈ docs, d.staysBelow = true)
    (hcompose : ((placed docs directory).compose (.start [])).1 = .ok catalog) :
    ∃ catalog', ((placed docs .root).compose (.start [])).1 = .ok catalog' := by
  have hlists : catalog.Lists (placed docs directory) _ := lists_of_compose_ofTexts hcompose
  exact exists_catalog_ofTexts_iff.2 ((composable_placed h).1 hlists.composable)

/-- Two events that differ in their documents only, and these in the directory above only. -/
structure Event.SameBelow (directory directory' : DocumentPath) (d e : Event) : Prop where
  title : d.title = e.title
  schema : d.schema = e.schema
  document : ∃ r : RelativePath, d.document = r.under directory ∧ e.document = r.under directory'

/-- Documents can be moved. Where no reference climbs above the directory that a set of documents
stands below, the set can be composed below every directory or below none. Its catalogs have the
same titles and schemas, the documents differ only in the directory, and the modules are the same,
or fail for the same reason. -/
theorem compose_relocated (docs : List RelativeDocument) (h : ∀ d ∈ docs, d.staysBelow = true)
    (directory directory' : DocumentPath) :
    (∃ e e', ((placed docs directory).compose (.start [])).1 = .error e ∧
        ((placed docs directory').compose (.start [])).1 = .error e') ∨
      ∃ catalog catalog', ((placed docs directory).compose (.start [])).1 = .ok catalog ∧
        ((placed docs directory').compose (.start [])).1 = .ok catalog' ∧
        List.Forall₂ (Event.SameBelow directory directory') catalog.events catalog'.events ∧
        ∀ options, catalog.module options = catalog'.module options := by
  -- both libraries are compared with the one from the root of the file system
  cases hroot : ((placed docs .root).compose (.start [])).1 with
  | error e =>
    have hfails : ∀ directory, ∃ e',
        ((placed docs directory).compose (.start [])).1 = .error e' := by
      intro directory
      cases hcompose : ((placed docs directory).compose (.start [])).1 with
      | error e' => exact ⟨e', rfl⟩
      | ok catalog =>
        obtain ⟨catalog', hok⟩ := exists_compose_root h hcompose
        exact nomatch hroot.symm.trans hok
    obtain ⟨e', he'⟩ := hfails directory
    obtain ⟨e'', he''⟩ := hfails directory'
    exact .inl ⟨e', e'', he', he''⟩
  | ok catalog =>
    have hlists : catalog.Lists (placed docs .root) _ := lists_of_compose_ofTexts hroot
    have hsame : List.Forall₂ (Event.SameBelow directory directory')
        (catalog.below directory).events (catalog.below directory').events := by
      rw [events_below, events_below, List.forall₂_map_left_iff, List.forall₂_map_right_iff,
        List.forall₂_same]
      intro event hevent
      have hdocument := hlists.mem_documents hevent
      exact ⟨rfl, rfl, ⟨event.document, segments_ne_nil_of_mem_placed hdocument⟩, rfl, rfl⟩
    exact .inr ⟨_, _, compose_placed h hroot directory, compose_placed h hroot directory', hsame,
      module_congr (hsame.imp fun _ _ hde => ⟨hde.title, hde.schema⟩)⟩

/-! ## Two documents in two directories -/

/-- A document that inherits from one in the directory above its own, and that one. -/
def orderDocuments : List RelativeDocument :=
  [⟨⟨⟨["order".toList, "Placed.json".toList], by decide⟩, by decide⟩,
    "\x7b\"title\":\"Order Placed\",\"extends\":\x7b\"$ref\":\"../Base.json\"\x7d\x7d"⟩,
  ⟨⟨⟨["Base.json".toList], by decide⟩, by decide⟩,
    "\x7b\"title\":\"Base\",\"type\":\"object\"\x7d"⟩]

/-- A directory that they are moved to. -/
def schemaDirectory : DocumentPath := ⟨["srv".toList, "schemas".toList], by decide⟩

/-- The two documents can be composed in both places, to the same events and modules. -/
theorem compose_orderDocuments_relocated :
    (∀ d ∈ orderDocuments, d.staysBelow = true) ∧
      ∃ catalog catalog', ((placed orderDocuments .root).compose (.start [])).1 = .ok catalog ∧
        ((placed orderDocuments schemaDirectory).compose (.start [])).1 = .ok catalog' ∧
        List.Forall₂ (Event.SameBelow .root schemaDirectory) catalog.events catalog'.events ∧
        ∀ options, catalog.module options = catalog'.module options := by
  have hstays : ∀ d ∈ orderDocuments, d.staysBelow = true := by decide +kernel
  refine ⟨hstays, ?_⟩
  rcases compose_relocated orderDocuments hstays .root schemaDirectory with
    ⟨e, -, herror, -⟩ | hcatalogs
  · have hok : ((placed orderDocuments .root).compose (.start [])).1.isOk = true := by
      decide +kernel
    rw [herror] at hok
    cases hok
  · exact hcatalogs

end EventSchema
