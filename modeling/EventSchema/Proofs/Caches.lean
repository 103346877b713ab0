import EventSchema.Proofs.KeptDocuments
import EventSchema.Proofs.NestedCalls
import EventSchema.Proofs.Catalogs
import EventSchema.Proofs.Preloading

/-!
# What the cache of a library holds

All requests read and fill one cache, some of them in the middle of a run that fails later. A tree
in it is never looked at again: what makes that right is that it is the tree of its document, at
every moment.

* `Library.Passes` — the caches that a library goes through: between requests, at every call of a
  resolution, and after any number of turns of a preload;
* `sound_of_passes` — each of them holds parsed trees only;
* `Cache.Grown.run`, `grown_perform` — over a run and over a request the cache grows, and loses
  nothing;
* `cache_unobserved` — so a document is loaded at every moment as it is the first time.
-/

namespace EventSchema

open Library

variable {lib : Library} {start middle cache : Cache} {scope : DocumentPath → Prop} {s s' : Session}
  {p q : DocumentPath} {t : Tree} {e : ComposeError}

/-! ## Growth -/

/-- What grows twice grows. -/
theorem Cache.Grown.trans (h : Cache.Grown lib start middle) (h' : Cache.Grown lib middle cache) :
    Cache.Grown lib start cache := by
  refine ⟨fun q t hq => h'.kept q t (h.kept q t hq), fun q t hq => ?_⟩
  rcases h'.parsed q t hq with hmiddle | ⟨hmiddle, hparse⟩
  · exact h.parsed q t hmiddle
  · refine .inr ⟨?_, hparse⟩
    cases hstart : start.lookup q with
    | none => rfl
    | some u => cases hmiddle.symm.trans (h.kept q u hstart)

/-- Over one change of a session its cache grows. -/
theorem Cache.Grown.step (h : Session.Step lib scope s s') : Cache.Grown lib s.cache s'.cache := by
  cases h with
  | keep => exact .refl lib s.cache
  | turn => exact .refl lib s.cache
  | @load path tree _ hnew hparse =>
    have hload : (lib.load path s.cache).2 = (path, tree) :: s.cache := by
      simp only [Library.load, hnew, hparse]
    exact hload ▸ (Cache.Grown.refl lib s.cache).load path

/-- Over a run of a session its cache grows. -/
theorem Cache.Grown.run (h : Session.Run lib scope s s') : Cache.Grown lib s.cache s'.cache := by
  induction h with
  | refl => exact .refl lib _
  | tail _ hstep ih => exact ih.trans (.step hstep)

/-- Over a composition the cache grows, also when it fails at a document. -/
theorem grown_composeFrom {documents : List DocumentPath} {catalog : Catalog} (hs : s.AtRest lib) :
    Cache.Grown lib s.cache
      (composeFrom lib.resolveDocument documents catalog s).2.cache := by
  induction documents generalizing catalog s with
  | nil => exact .refl lib s.cache
  | cons document rest ih =>
    have hgrown := Cache.Grown.run (resolveDocument_resolved hs.sound document).run
    have hrest := hs.resolveDocument document
    rw [composeFrom]
    generalize lib.resolveDocument document s = answer at hgrown hrest
    obtain ⟨result, s₁⟩ := answer
    cases result with
    | error e => exact hgrown
    | ok schema =>
      dsimp only
      cases catalog.enter document schema with
      | error e => exact hgrown
      | ok entered => exact hgrown.trans (ih hrest)

/-- Over every request the cache grows. -/
theorem grown_perform (hs : s.AtRest lib) (request : Request) :
    Cache.Grown lib s.cache (lib.perform s request).cache := by
  have hrefl := Cache.Grown.refl lib s.cache
  cases request with
  | load path => exact hrefl.load path
  | preload workers schedule =>
    change Cache.Grown lib s.cache (lib.preload workers schedule s.cache).2
    rw [preload_eq]
    exact (progress_finishPreload lib workers schedule s.cache).grown
  | directReferences path =>
    change Cache.Grown lib s.cache (lib.directReferences path s.cache).2
    rw [directReferences_cache]
    exact hrefl.load path
  | resolve path => exact Cache.Grown.run (resolve_run hs.sound path).1
  | compose => exact grown_composeFrom hs
  | composeApart => exact grown_composeFrom (.start hs.sound.cached)
  | newComposer => exact hrefl

/-! ## Moments -/

/-- The caches that a library goes through while it serves requests. -/
inductive Library.Passes (lib : Library) : Cache → Prop
  /-- between two requests -/
  | between (requests : List Request) : Passes lib (lib.after requests).cache
  /-- when a document is about to be resolved, at whatever depth -/
  | resolving {requests : List Request} {outer : List Call} {call : Call}
      (h : Nested lib requests outer call) : Passes lib call.2.cache
  /-- during a preload, when the workers have taken some turns -/
  | preloading (requests : List Request) (workers : Nat) (schedule : List Nat) :
      Passes lib ((lib.startPreload workers (lib.after requests).cache).run lib schedule).cache

/-- At every moment the cached trees are those of their documents. -/
theorem sound_of_passes (h : lib.Passes cache) : cache.Sound lib := by
  cases h with
  | between requests => exact (after_atRest lib requests).sound.cached
  | resolving h => exact (proper_of_nested h).1.sound.cached
  | preloading requests workers schedule =>
    have hstart : (lib.startPreload workers (lib.after requests).cache).cache.Sound lib :=
      (after_atRest lib requests).sound.cached
    exact hstart.preloadRun schedule

/-- The enumerated documents of a library. -/
theorem mem_documents_ofPaths {source : Source} {paths : List DocumentPath} :
    q ∈ (Library.ofPaths source paths).documents ↔ q ∈ paths :=
  mem_sortOnce

/-- The cache cannot be told from its absence. Whatever documents are enumerated, and whether or not
the source has them, at every moment of every history of requests,
* what is cached is the tree of an enumerated document, parsed from its text in the format of its
  extension;
* a document is loaded as from an empty cache: with the same tree, or refused for the same reason;
* loading a document replaces and removes nothing, and changes nothing at all when it fails.
Over every request, whether it succeeds or fails, nothing is replaced or removed either. -/
theorem cache_unobserved (source : Source) (paths : List DocumentPath) :
    let lib := Library.ofPaths source paths
    (∀ cache, lib.Passes cache →
      (∀ q t, cache.lookup q = some t → q ∈ paths ∧
        ∃ text, source q = .ok text ∧
          Markup.parse (Format.ofExtension q.extension?) text = .ok t) ∧
      ∀ p, (lib.load p cache).1 = (lib.load p []).1 ∧
        (∀ q t, cache.lookup q = some t → (lib.load p cache).2.lookup q = some t) ∧
        ∀ e, (lib.load p cache).1 = .error e → (lib.load p cache).2 = cache) ∧
      ∀ requests request q t, (lib.after requests).cache.lookup q = some t →
        (lib.perform (lib.after requests) request).cache.lookup q = some t := by
  intro lib
  refine ⟨fun cache hpasses => ⟨fun q t hq => ?_, fun p => ⟨?_, ?_, fun e he => ?_⟩⟩, ?_⟩
  · obtain ⟨hin, text, hsource, hparse⟩ := parse_eq_ok_iff.1 (sound_of_passes hpasses q t hq)
    exact ⟨mem_documents_ofPaths.1 hin, text, hsource, hparse⟩
  · rw [load_eq_parse (sound_of_passes hpasses), load_eq_parse Cache.sound_nil]
  · exact ((Cache.Grown.refl lib cache).load p).kept
  · exact cache_of_load_error (Prod.ext he rfl)
  · intro requests request q t hq
    exact (grown_perform (after_atRest lib requests) request).kept q t hq

end EventSchema
