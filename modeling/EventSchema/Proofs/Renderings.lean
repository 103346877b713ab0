import EventSchema.Compilation
import EventSchema.Proofs.Locality
import EventSchema.Proofs.Preloading

/-!
# What a rendering depends on

A module is rendered by workers that share a cache, on a machine that may refuse to read something.
If there is a module in the end, neither the workers nor the machine show in it.

* `Catalog.Lists.unique` — a library has one catalog;
* `composeLoaded_eq_ok_iff` — it is what loading ahead and composing gives, if they give any;
* `Disk.library` — the documents that a pattern means, with their texts on a disk;
* `render_eq_ok_iff` — a rendering is the module of the catalog of this library;
* `render_of_includes` — so it is the same on every disk where the documents have the same texts.
-/

namespace EventSchema

open Library TypeScript

variable {lib : Library} {catalog catalog' : Catalog} {host host' : Host} {disk disk' : Disk}
  {pattern : String} {options : ModuleOptions} {rendered : Rendered} {p : Glob.PathPattern}
  {path : DocumentPath}

/-! ## Catalogs -/

/-- A library has one catalog. -/
theorem Catalog.Lists.unique (h : catalog.Lists lib lib.documents)
    (h' : catalog'.Lists lib lib.documents) : catalog = catalog' :=
  Catalog.ext_of_mem fun _ => h.mem_iff.trans h'.mem_iff.symm

/-- A document that declares an event can be loaded. -/
theorem Library.Declares.parse {title : String} {t : Tree} (h : lib.Declares path title t) :
    ∃ raw, lib.parse path = .ok raw := by
  obtain ⟨n, hn⟩ := exists_inlined_succ (declares_iff.1 h).1
  obtain ⟨raw, hraw, -⟩ := inlined_succ_eq_some_iff.1 hn
  exact ⟨raw, hraw⟩

/-- Loading all documents ahead and composing them gives the catalog of the library, if it has one.
It does not matter who loads what when. -/
theorem composeLoaded_eq_ok_iff (hordered : DocumentPath.Ordered lib.documents) :
    lib.composeLoaded host = .ok catalog ↔ catalog.Lists lib lib.documents := by
  have hs : (Session.start (lib.preload host.workers host.schedule []).2).AtRest lib :=
    .start (Cache.sound_nil.preload host.workers host.schedule)
  rw [composeLoaded]
  rw [preload_eq] at hs ⊢
  constructor
  · intro h
    split at h
    · cases h
    · next cache heq =>
      obtain ⟨-, rfl⟩ := Prod.mk.inj heq
      exact lists_of_compose hordered hs h
  · intro h
    have hloads : (lib.pending []).findSome? (lib.loadFailure? []) = none := by
      rw [List.findSome?_eq_none_iff]
      intro q hq
      obtain ⟨title, t, hdeclares⟩ := h.composable.declares q (List.mem_filter.1 hq).1
      obtain ⟨raw, hraw⟩ := hdeclares.parse
      exact loadFailure?_eq_none_iff.2 ⟨raw, (load_eq_parse Cache.sound_nil q).trans hraw⟩
    obtain ⟨found, hfound⟩ := (exists_catalog_iff hordered hs).2 h.composable
    rw [hloads]
    dsimp only
    rw [hfound, (lists_of_compose hordered hs hfound).unique h]

/-! ## Modules -/

/-- The documents that a pattern means, with their texts on a disk. -/
def Disk.library (disk : Disk) (host : Host) (p : Glob.PathPattern) : Library :=
  Library.ofPaths (disk.source host) (disk.documents p)

/-- A library is opened for a pattern that means some documents. -/
theorem openLibrary_eq_ok_iff :
    openLibrary host disk pattern = .ok lib ↔
      ∃ p, Glob.parse pattern = .ok p ∧ host.refuses .enumerate = none ∧ disk.documents p ≠ [] ∧
        lib = disk.library host p := by
  rw [openLibrary, enumerate]
  cases hparse : Glob.parse pattern with
  | error e => simp [bind, Except.bind]
  | ok p =>
    cases hrefuses : host.refuses .enumerate with
    | some e => simp [Host.access, hrefuses, bind, Except.bind]
    | none =>
      simp only [Host.access, hrefuses, bind, Except.bind, Except.ok.injEq, exists_eq_left',
        true_and, Disk.library]
      cases hdocuments : disk.documents p with
      | nil => simp
      | cons q rest => simp [pure, Except.pure, eq_comm]

/-- A rendering is the module of the catalog of the documents that the pattern means. -/
theorem render_eq_ok_iff :
    render host disk pattern options = .ok rendered ↔
      ∃ p, ∃ catalog : Catalog, Glob.parse pattern = .ok p ∧ host.refuses .enumerate = none ∧
        disk.documents p ≠ [] ∧
        catalog.Lists (disk.library host p) (disk.library host p).documents ∧
        ∃ text, catalog.module options = .ok text ∧
          rendered = ⟨text, (disk.library host p).documents.length, catalog.events.length⟩ := by
  have hlists : ∀ (p : Glob.PathPattern) (catalog : Catalog),
      (disk.library host p).composeLoaded host = .ok catalog ↔
        catalog.Lists (disk.library host p) (disk.library host p).documents := fun p catalog =>
    composeLoaded_eq_ok_iff (ordered_documents _ _)
  rw [render]
  simp only [bind_eq_ok_iff, mapError_eq_ok_iff, openLibrary_eq_ok_iff]
  constructor
  · rintro ⟨lib, ⟨p, hparse, hgranted, hsome, rfl⟩, catalog, hcatalog, text, htext, hrendered⟩
    exact ⟨p, catalog, hparse, hgranted, hsome, (hlists p catalog).1 hcatalog, text, htext,
      (Except.ok.inj hrendered).symm⟩
  · rintro ⟨p, catalog, hparse, hgranted, hsome, hcatalog, text, htext, rfl⟩
    exact ⟨_, ⟨p, hparse, hgranted, hsome, rfl⟩, catalog, (hlists p catalog).2 hcatalog, text,
      htext, rfl⟩

/-- Where the pattern means the same documents, with the same texts, the rendering is the same. -/
theorem render_of_includes (hgranted : host'.refuses .enumerate = none)
    (hdocuments : ∀ p, Glob.parse pattern = .ok p → disk'.documents p = disk.documents p)
    (hincludes : ∀ p, Glob.parse pattern = .ok p →
      (disk'.library host' p).Includes (disk.library host p))
    (h : render host disk pattern options = .ok rendered) :
    render host' disk' pattern options = .ok rendered := by
  obtain ⟨p, catalog, hparse, -, hsome, hlists, text, htext, rfl⟩ := render_eq_ok_iff.1 h
  have hsame : (disk'.library host' p).documents = (disk.library host p).documents := by
    rw [Disk.library, Disk.library, Library.ofPaths, Library.ofPaths, hdocuments p hparse]
  refine render_eq_ok_iff.2 ⟨p, catalog, hparse, hgranted, ?_, ?_, text, htext, by rw [hsame]⟩
  · rw [hdocuments p hparse]
    exact hsome
  · rw [hsame]
    exact ⟨hlists.ordered, hlists.documents, fun event hevent =>
      declares_of_includes (hincludes p hparse) (hlists.declared event hevent)⟩

end EventSchema
