import EventSchema.Proofs.Entries
import EventSchema.Proofs.Histories
import EventSchema.Proofs.PathOrder

/-!
# What a catalog holds

A catalog holds one event for each document, or names the first document that has none to give.

* `Library.Declares` — a document resolves, in a new session, to a content with a title;
* `Library.Rejects` — why a document does not get into the catalog after those before it;
* `Catalog.Lists` — the catalog of some documents: one event for each, in title order;
* `Catalog.ext_of_mem` — a catalog is known by its events;
* `lists_enter`, `rejects_of_enter` — what entering one more document does;
* `enterAll_outcome` — from one document to all of them;
* `Library.Composable` — every document declares an event of its own;
* `compose_outcome` — when a library can be composed, to what, and what is reported if not.
-/

namespace EventSchema

/-- A new session resolves a document to a content with a title. -/
structure Library.Declares (lib : Library) (path : DocumentPath) (title : String) (t : Tree) :
    Prop where
  resolves : (lib.resolve path (Session.start [])).1 = .ok t
  title? : t.title? = some title

/-- Why a document does not get into the catalog after the documents before it. -/
inductive Library.Rejects (lib : Library) (path : DocumentPath) : ComposeError → Prop
  /-- the document is not resolved in a new session -/
  | unresolved {e : ComposeError} (h : (lib.resolve path (Session.start [])).1 = .error e) :
    Rejects lib path e
  /-- it is resolved to something without a title -/
  | untitled {t : Tree} (h : (lib.resolve path (Session.start [])).1 = .ok t)
      (ht : t.title? = none) : Rejects lib path (.missingTitle path)
  /-- a document before it has the same title -/
  | repeated {first : DocumentPath} {title : String} {t u : Tree} (hin : first ∈ lib.documents)
      (hbefore : first.before path = true) (hfirst : lib.Declares first title t)
      (h : lib.Declares path title u) : Rejects lib path (.duplicateTitle title first path)

/-- The catalog of some documents: one event for each, which is what the document declares, in title
order. -/
structure Catalog.Lists (lib : Library) (documents : List DocumentPath) (catalog : Catalog) :
    Prop where
  ordered : catalog.events.Pairwise fun d e => d.title < e.title
  documents : (catalog.events.map (·.document)).Perm documents
  declared : ∀ event ∈ catalog.events, lib.Declares event.document event.title event.schema

open Library

variable {lib : Library} {p q path : DocumentPath} {title : String} {t u : Tree} {e : ComposeError}
  {catalog : Catalog} {documents : List DocumentPath}

/-! ## Declarations -/

/-- A new session resolves a document to its content. -/
theorem resolve_start (lib : Library) (path : DocumentPath) :
    (lib.resolve path (Session.start [])).1 = lib.content path :=
  resolve_eq_content (after_atRest lib []) path

/-- A document declares what its content is, if that has a title. -/
theorem declares_iff :
    lib.Declares path title t ↔ lib.content path = .ok t ∧ t.title? = some title := by
  rw [← resolve_start]
  exact ⟨fun h => ⟨h.resolves, h.title?⟩, fun h => ⟨h.1, h.2⟩⟩

/-- A document declares one event only. -/
theorem Library.Declares.unique {title' : String} (h : lib.Declares path title t)
    (h' : lib.Declares path title' u) : title = title' ∧ t = u := by
  obtain rfl : t = u := Except.ok.inj (h.resolves.symm.trans h'.resolves)
  exact ⟨Option.some.inj (h.title?.symm.trans h'.title?), rfl⟩

/-- A document that declares an event is rejected only if a document before it declares the same
title. -/
theorem Library.Declares.not_rejects (h : lib.Declares p title t)
    (hnew : ∀ first ∈ lib.documents, first.before p = true → ∀ u, ¬ lib.Declares first title u) :
    ¬ lib.Rejects p e := by
  intro hrejects
  cases hrejects with
  | unresolved herror => exact nomatch herror.symm.trans h.resolves
  | untitled hok htitle =>
    obtain rfl := Except.ok.inj (hok.symm.trans h.resolves)
    exact nomatch htitle.symm.trans h.title?
  | repeated hin hlt hfirst hrepeated =>
    obtain ⟨rfl, -⟩ := hrepeated.unique h
    exact hnew _ hin hlt _ hfirst

/-! ## Events of a catalog -/

namespace Catalog

/-- The entries are the events under their titles. -/
theorem entries_eq (catalog : Catalog) :
    catalog.entries = catalog.events.map fun event => (event.title, event) := by
  have hself : ∀ e ∈ catalog.entries, (e.2.title, e.2) = e := fun e he =>
    Prod.ext (catalog.titled e he).symm rfl
  rw [events, List.map_map]
  exact (List.map_id' _).symm.trans (List.map_congr_left fun e he => (hself e he).symm)

/-- Catalogs with the same events are equal. -/
theorem ext_of_mem {catalog' : Catalog}
    (h : ∀ event, event ∈ catalog.events ↔ event ∈ catalog'.events) : catalog = catalog' := by
  have hevents := eq_of_pairwise_key_lt Event.title catalog.pairwise_title_lt
    catalog'.pairwise_title_lt h
  exact Catalog.ext (by rw [entries_eq, entries_eq, hevents])

/-- Two events with one title are one event. -/
theorem eq_of_title {d e : Event} (hd : d ∈ catalog.events) (he : e ∈ catalog.events)
    (htitle : d.title = e.title) : d = e := by
  have hmem : ∀ event ∈ catalog.events, (event.title, event) ∈ catalog.entries := by
    intro event hevent
    rw [entries_eq]
    exact List.mem_map_of_mem hevent
  exact congrArg Prod.snd (catalog.sorted.eq_of_key (hmem d hd) (hmem e he) htitle)

/-- An event that is found under a title has this title. -/
theorem mem_of_find? {event : Event} (h : Keyed.find? title catalog.entries = some event) :
    event ∈ catalog.events ∧ event.title = title :=
  ⟨List.mem_map_of_mem (Keyed.mem_of_find? h), (catalog.titled _ (Keyed.mem_of_find? h)).symm⟩

/-- An event with a new title is one event more. -/
theorem insert_perm (event : Event) (h : Keyed.find? event.title catalog.entries = none) :
    (catalog.insert event).events.Perm (event :: catalog.events) :=
  (Keyed.insert_perm event h).map Prod.snd

namespace Lists

/-- Each document has its event. -/
theorem exists_event (h : catalog.Lists lib documents) (hp : p ∈ documents) :
    ∃ event ∈ catalog.events, event.document = p :=
  List.mem_map.1 (h.documents.mem_iff.2 hp)

/-- The events are those of the documents. -/
theorem mem_documents (h : catalog.Lists lib documents) {event : Event}
    (he : event ∈ catalog.events) : event.document ∈ documents :=
  h.documents.mem_iff.1 (List.mem_map_of_mem he)

/-- Each document declares an event, and no two of them declare the same title. -/
theorem distinct (h : catalog.Lists lib documents) (hp : p ∈ documents) (hq : q ∈ documents)
    (hdeclares : lib.Declares p title t) (hdeclares' : lib.Declares q title u) : p = q := by
  obtain ⟨d, hd, rfl⟩ := h.exists_event hp
  obtain ⟨e, he, rfl⟩ := h.exists_event hq
  have hdtitle := ((h.declared d hd).unique hdeclares).1
  have hetitle := ((h.declared e he).unique hdeclares').1
  exact congrArg Event.document (eq_of_title hd he (hdtitle.trans hetitle.symm))

/-- The events of a catalog are what its documents declare. -/
theorem mem_iff (h : catalog.Lists lib documents) {event : Event} :
    event ∈ catalog.events ↔ event.document ∈ documents ∧
      lib.Declares event.document event.title event.schema := by
  constructor
  · intro hevent
    exact ⟨h.mem_documents hevent, h.declared event hevent⟩
  · rintro ⟨hdocument, hdeclares⟩
    obtain ⟨found, hfound, hsame⟩ := h.exists_event hdocument
    obtain ⟨htitle, hschema⟩ := (hsame ▸ h.declared found hfound).unique hdeclares
    obtain rfl : found = event := Event.ext htitle hsame hschema
    exact hfound

/-- Nothing stands in the way of a document that is listed already. -/
theorem not_rejects (h : catalog.Lists lib documents) (hp : p ∈ documents)
    (hbefore : ∀ q ∈ lib.documents, q.before p = true → q ∈ documents) : ¬ lib.Rejects p e := by
  obtain ⟨event, hevent, rfl⟩ := h.exists_event hp
  have hdeclares := h.declared event hevent
  refine hdeclares.not_rejects fun first hin hlt u hfirst => ?_
  obtain rfl := h.distinct (hbefore first hin hlt) hp hfirst hdeclares
  exact DocumentPath.not_before_self _ hlt

end Lists

end Catalog

/-! ## One document more -/

/-- The empty catalog lists no documents. -/
theorem lists_empty (lib : Library) : Catalog.Lists lib [] .empty :=
  ⟨.nil, .nil, nofun⟩

/-- A document that is entered is listed after the others. -/
theorem lists_enter {catalog' : Catalog} (h : catalog.Lists lib documents)
    (hcontent : lib.content p = .ok t) (henter : catalog.enter p t = .ok catalog') :
    catalog'.Lists lib (documents ++ [p]) := by
  rcases catalog.enter_cases p t with
    ⟨-, herror⟩ | ⟨_, _, -, -, herror⟩ | ⟨title, htitle, hnew, hentered⟩
  · exact nomatch henter.symm.trans herror
  · exact nomatch henter.symm.trans herror
  · obtain rfl := Except.ok.inj (henter.symm.trans hentered)
    have hevents := Catalog.insert_perm ⟨title, p, t⟩ hnew
    refine ⟨Catalog.pairwise_title_lt _, ?_, fun event hevent => ?_⟩
    · have hdocuments := (h.documents.cons p).trans (List.perm_append_singleton p documents).symm
      exact (hevents.map Event.document).trans hdocuments
    · rcases List.mem_cons.1 (hevents.mem_iff.1 hevent) with rfl | hevent
      · exact declares_iff.2 ⟨hcontent, htitle⟩
      · exact h.declared event hevent

/-- A document that cannot be entered after those before it is rejected. -/
theorem rejects_of_enter (h : catalog.Lists lib documents)
    (hbefore : ∀ q ∈ documents, q ∈ lib.documents ∧ q.before p = true)
    (herror : (do catalog.enter p (← lib.content p)) = .error e) : lib.Rejects p e := by
  cases hcontent : lib.content p with
  | error e' =>
    simp only [hcontent, bind, Except.bind, Except.error.injEq] at herror
    exact .unresolved ((resolve_start lib p).trans (herror ▸ hcontent))
  | ok t =>
    have hresolves := (resolve_start lib p).trans hcontent
    simp only [hcontent, bind, Except.bind] at herror
    rcases catalog.enter_cases p t with
      ⟨htitle, hmissing⟩ | ⟨title, first, htitle, hfirst, hduplicate⟩ | ⟨_, -, -, hentered⟩
    · obtain rfl := Except.error.inj (herror.symm.trans hmissing)
      exact .untitled hresolves htitle
    · obtain rfl := Except.error.inj (herror.symm.trans hduplicate)
      obtain ⟨hevent, rfl⟩ := Catalog.mem_of_find? hfirst
      obtain ⟨hin, hlt⟩ := hbefore _ (h.mem_documents hevent)
      exact .repeated hin hlt (h.declared first hevent) ⟨hresolves, htitle⟩
    · exact nomatch herror.symm.trans hentered

/-! ## All documents -/

/-- A document is the first one that is rejected. -/
def Library.FirstRejected (lib : Library) (path : DocumentPath) (e : ComposeError) : Prop :=
  path ∈ lib.documents ∧ lib.Rejects path e ∧
    ∀ q ∈ lib.documents, q.before path = true → ∀ e', ¬ lib.Rejects q e'

/-- The first document that is rejected is so for one reason only. -/
theorem Library.FirstRejected.unique {e' : ComposeError} (h : lib.FirstRejected p e)
    (h' : lib.FirstRejected q e') : p = q ∧ e = e' := by
  obtain ⟨hp, hrejects, hfirst⟩ := h
  obtain ⟨hq, hrejects', hfirst'⟩ := h'
  obtain rfl : p = q := by
    rcases DocumentPath.before_or_eq_or_before p q with hlt | heq | hlt
    · exact absurd hrejects (hfirst' p hp hlt e)
    · exact heq
    · exact absurd hrejects' (hfirst q hq hlt e')
  refine ⟨rfl, ?_⟩
  cases hrejects with
  | unresolved herror =>
    cases hrejects' with
    | unresolved herror' => exact Except.error.inj (herror.symm.trans herror')
    | untitled hok => exact nomatch herror.symm.trans hok
    | repeated _ _ _ hok => exact nomatch herror.symm.trans hok.resolves
  | untitled hok htitle =>
    cases hrejects' with
    | unresolved herror => exact nomatch herror.symm.trans hok
    | untitled => rfl
    | repeated _ _ _ hok' =>
      obtain rfl := Except.ok.inj (hok.symm.trans hok'.resolves)
      exact nomatch htitle.symm.trans hok'.title?
  | @repeated first _ _ _ hin hlt hdeclares hok =>
    cases hrejects' with
    | unresolved herror => exact nomatch herror.symm.trans hok.resolves
    | untitled hok' htitle =>
      obtain rfl := Except.ok.inj (hok'.symm.trans hok.resolves)
      exact nomatch htitle.symm.trans hok.title?
    | @repeated first' _ _ _ hin' hlt' hdeclares' hok' =>
      obtain ⟨rfl, rfl⟩ := hok.unique hok'
      -- of two earlier documents with this title the second would have been rejected before
      rcases DocumentPath.before_or_eq_or_before first first' with hbefore | rfl | hbefore
      · exact absurd (.repeated hin hbefore hdeclares hdeclares') (hfirst _ hin' hlt' _)
      · rfl
      · exact absurd (.repeated hin' hbefore hdeclares' hdeclares) (hfirst _ hin hlt _)

/-- The documents of a library are entered one by one, up to the first that is rejected. -/
theorem enterAll_outcome (hordered : DocumentPath.Ordered lib.documents) :
    (∃ catalog, enterAll lib .empty lib.documents = .ok catalog ∧ catalog.Lists lib lib.documents) ∨
      ∃ e path, enterAll lib .empty lib.documents = .error e ∧ lib.FirstRejected path e := by
  have hstep : ∀ done (catalog : Catalog) p catalog', catalog.Lists lib done →
      (do catalog.enter p (← lib.content p)) = .ok catalog' →
        catalog'.Lists lib (done ++ [p]) := by
    intro done catalog p catalog' h henter
    cases hcontent : lib.content p with
    | error e => simp [hcontent, bind, Except.bind] at henter
    | ok t => exact lists_enter h hcontent (by simpa [hcontent, bind, Except.bind] using henter)
  rcases foldlM_invariant hstep lib.documents [] .empty (lists_empty lib) with
    ⟨catalog, hok, hlists⟩ | ⟨e, done, p, rest, catalog, herror, hdocuments, hlists, henter⟩
  · exact .inl ⟨catalog, hok, hlists⟩
  · have hbefore : ∀ q ∈ done, q ∈ lib.documents ∧ q.before p = true := fun q hq =>
      ⟨hdocuments ▸ List.mem_append_left _ hq, (hdocuments ▸ hordered).before_of_mem hq⟩
    refine .inr ⟨e, p, herror, by simp [hdocuments], rejects_of_enter hlists hbefore henter, ?_⟩
    intro q hq hlt e'
    have hearlier : ∀ r ∈ lib.documents, r.before p = true → r ∈ done := fun r hr hrp =>
      (hdocuments ▸ hordered).mem_of_before (hdocuments ▸ hr) hrp
    exact hlists.not_rejects (hearlier q hq hlt) fun r hr hrq =>
      hearlier r hr (DocumentPath.before_trans hrq hlt)

/-- Every document declares an event, and no two of them declare the same title. -/
structure Library.Composable (lib : Library) : Prop where
  declares : ∀ p ∈ lib.documents, ∃ title t, lib.Declares p title t
  distinct : ∀ p ∈ lib.documents, ∀ q ∈ lib.documents, ∀ title t u,
    lib.Declares p title t → lib.Declares q title u → p = q

/-- What lists all documents shows that each declares an event of its own. -/
theorem Catalog.Lists.composable (h : catalog.Lists lib lib.documents) : lib.Composable := by
  refine ⟨fun p hp => ?_, fun p hp q hq title t u => h.distinct hp hq⟩
  obtain ⟨event, hevent, rfl⟩ := h.exists_event hp
  exact ⟨_, _, h.declared event hevent⟩

/-- Where each document declares an event of its own, none is rejected. -/
theorem Library.Composable.not_rejects (h : lib.Composable) (hp : p ∈ lib.documents) :
    ¬ lib.Rejects p e := by
  obtain ⟨title, t, hdeclares⟩ := h.declares p hp
  refine hdeclares.not_rejects fun first hin hlt u hfirst => ?_
  obtain rfl := h.distinct _ hin _ hp _ _ _ hfirst hdeclares
  exact DocumentPath.not_before_self _ hlt

section Composition

variable {s : Session} (hordered : DocumentPath.Ordered lib.documents) (hs : s.AtRest lib)
include hordered hs

/-- A composition lists all documents, or reports the first that is rejected. -/
theorem compose_cases :
    (∃ catalog, (lib.compose s).1 = .ok catalog ∧ catalog.Lists lib lib.documents) ∨
      ∃ e path, (lib.compose s).1 = .error e ∧ lib.FirstRejected path e := by
  rw [compose_eq hs]
  exact enterAll_outcome hordered

/-- A catalog lists all documents of its library. -/
theorem lists_of_compose (h : (lib.compose s).1 = .ok catalog) :
    catalog.Lists lib lib.documents := by
  rcases compose_cases hordered hs with ⟨catalog', hok, hlists⟩ | ⟨e, path, herror, -⟩
  · exact Except.ok.inj (hok.symm.trans h) ▸ hlists
  · exact nomatch herror.symm.trans h

/-- A library can be composed if each document declares an event of its own. -/
theorem exists_catalog_iff : (∃ catalog, (lib.compose s).1 = .ok catalog) ↔ lib.Composable := by
  constructor
  · rintro ⟨catalog, h⟩
    exact (lists_of_compose hordered hs h).composable
  · intro h
    rcases compose_cases hordered hs with ⟨catalog, hok, -⟩ | ⟨e, path, -, hpath, hrejects, -⟩
    · exact ⟨catalog, hok⟩
    · exact absurd hrejects (h.not_rejects hpath)

/-- The error of a composition is the one of the first document that is rejected. -/
theorem compose_eq_error_iff :
    (lib.compose s).1 = .error e ↔ ∃ path, lib.FirstRejected path e := by
  rcases compose_cases hordered hs with ⟨catalog, hok, hlists⟩ | ⟨e', path, herror, hfirst⟩
  · rw [hok]
    refine ⟨nofun, ?_⟩
    rintro ⟨path, hpath, hrejects, -⟩
    exact absurd hrejects (hlists.composable.not_rejects hpath)
  · rw [herror]
    constructor
    · intro h
      exact ⟨path, Except.error.inj h ▸ hfirst⟩
    · rintro ⟨path', hfirst'⟩
      rw [(hfirst.unique hfirst').2]

end Composition

section Texts

variable {texts : List (DocumentPath × String)}

/-- The catalog of documents that are held in memory lists all of them. -/
theorem lists_of_compose_ofTexts (h : ((ofTexts texts).compose (.start [])).1 = .ok catalog) :
    catalog.Lists (ofTexts texts) (ofTexts texts).documents :=
  lists_of_compose (ordered_documents _ _) (.start Cache.sound_nil) h

/-- Documents that are held in memory can be composed if each declares an event of its own. -/
theorem exists_catalog_ofTexts_iff :
    (∃ catalog, ((ofTexts texts).compose (.start [])).1 = .ok catalog) ↔
      (ofTexts texts).Composable :=
  exists_catalog_iff (ordered_documents _ _) (.start Cache.sound_nil)

end Texts

/-- A catalog loses no document and invents no event. Whatever was asked of the library before,
* it can be composed exactly if every document resolves, in a new session, to a content with a
  title, and no two of these titles are the same;
* its catalog then has one event for each document, with the content of the document as its schema
  and under its title, in title order;
* otherwise the error is the one of the first document in path order that does not resolve, has no
  title, or repeats the title of a document before it. -/
theorem compose_outcome (source : Source) (paths : List DocumentPath) (requests : List Request) :
    let lib := Library.ofPaths source paths
    let outcome := (lib.compose (lib.after requests)).1
    ((∃ catalog, outcome = .ok catalog) ↔ lib.Composable) ∧
      (∀ catalog, outcome = .ok catalog → catalog.Lists lib lib.documents) ∧
      ∀ e, outcome = .error e ↔ ∃ path, lib.FirstRejected path e := by
  intro lib outcome
  have hordered := ordered_documents source paths
  have hs := after_atRest lib requests
  exact ⟨exists_catalog_iff hordered hs, fun _ => lists_of_compose hordered hs,
    fun _ => compose_eq_error_iff hordered hs⟩

end EventSchema
