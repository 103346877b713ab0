import EventSchema.Library.Preload
import EventSchema.Composition.Catalog
import EventSchema.Proofs.Sessions

/-!
# Histories of requests

A composer and its library may have served any number of requests, some of which failed.

* `Request`, `Library.perform`, `after` — the requests, and the session after some of them;
* `Session.AtRest` — between requests a session is sound and nothing is in progress
  (`after_atRest`);
* `resolve_eq_content` — a resolution at rest answers the content of the document, whatever was
  asked before;
* `compose_eq` — so does a composition for all documents in turn;
* `resolve_after_history` — so a resolution never depends on what was asked before.
-/

namespace EventSchema

/-- What can be asked of a composer and of the library that it reads. -/
inductive Request where
  | load (path : DocumentPath)
  /-- all documents are loaded ahead, by some workers that take turns -/
  | preload (workers : Nat) (schedule : List Nat)
  | directReferences (path : DocumentPath)
  | resolve (path : DocumentPath)
  /-- the composer so far composes the documents and is used up; a new one takes its place -/
  | compose
  /-- the documents are composed by a composer of their own -/
  | composeApart
  /-- a new composer takes the place of the one so far -/
  | newComposer

/-- The session after one more request. -/
def Library.perform (lib : Library) (s : Session) : Request → Session
  | .load path => (s.withCache (lib.load path)).2
  | .preload workers schedule => (s.withCache (lib.preload workers schedule)).2
  | .directReferences path => (s.withCache (lib.directReferences path)).2
  | .resolve path => (lib.resolve path s).2
  | .compose => Session.start (lib.compose s).2.cache
  | .composeApart => { s with cache := (lib.compose (Session.start s.cache)).2.cache }
  | .newComposer => Session.start s.cache

/-- The session of a new composer over a new library after some requests. -/
def Library.after (lib : Library) (requests : List Request) : Session :=
  requests.foldl lib.perform (Session.start [])

/-- A session between requests. -/
structure Session.AtRest (lib : Library) (s : Session) : Prop where
  sound : s.Sound lib
  idle : s.inProgress = []

open Library

variable {lib : Library} {s : Session} {cache : Cache} {path : DocumentPath} {t : Tree}

/-! ## Caches -/

/-- Nothing is cached before the first request. -/
theorem Cache.sound_nil : Cache.Sound lib [] := fun _ _ h => nomatch h

/-- Loading keeps a cache sound. -/
theorem Cache.Sound.load (hc : cache.Sound lib) (path : DocumentPath) :
    (lib.load path cache).2.Sound lib :=
  ((Session.Sound.start hc).run (load_run lib path (Session.start cache))).cached

/-- Asking for references loads a document. -/
theorem directReferences_cache (lib : Library) (path : DocumentPath) (cache : Cache) :
    (lib.directReferences path cache).2 = (lib.load path cache).2 := by
  rw [directReferences]
  split <;> next h => rw [h]

/-- A worker loads at most one document in a step. -/
theorem Preload.work_cache (lib : Library) (w : Worker) (cache : Cache) :
    (Preload.work lib w cache).2 = cache ∨
      ∃ path, (Preload.work lib w cache).2 = (lib.load path cache).2 := by
  rw [Preload.work]
  cases w.batch with
  | nil => exact .inl rfl
  | cons path rest =>
    refine .inr ⟨path, ?_⟩
    dsimp only
    split <;> next h => rw [h]

/-- A step of a preload keeps the cache sound. -/
theorem Cache.Sound.preloadStep {p : Preload} (hc : p.cache.Sound lib) (index : Nat) :
    (p.step lib index).cache.Sound lib := by
  cases hw : p.workers[index]? with
  | none =>
    have hcache : (p.step lib index).cache = p.cache := by simp [Preload.step, hw]
    rw [hcache]
    exact hc
  | some w =>
    have hcache : (p.step lib index).cache = (Preload.work lib w p.cache).2 := by
      simp [Preload.step, hw]
    rw [hcache]
    rcases Preload.work_cache lib w p.cache with h | ⟨path, h⟩
    · rw [h]
      exact hc
    · rw [h]
      exact hc.load path

/-- The steps of a schedule keep the cache sound. -/
theorem Cache.Sound.preloadRun {p : Preload} (hc : p.cache.Sound lib) (schedule : List Nat) :
    (p.run lib schedule).cache.Sound lib := by
  rw [Preload.run]
  induction schedule generalizing p with
  | nil => exact hc
  | cons index rest ih => exact ih (hc.preloadStep index)

/-- Loading all documents ahead keeps a cache sound, whoever goes on when. -/
theorem Cache.Sound.preload (hc : cache.Sound lib) (workers : Nat) (schedule : List Nat) :
    (lib.preload workers schedule cache).2.Sound lib := by
  have hstart : (lib.startPreload workers cache).cache.Sound lib := hc
  have hall := (hstart.preloadRun schedule).preloadRun
    ((lib.startPreload workers cache).run lib schedule).completion
  unfold Library.preload
  dsimp only
  split <;> exact hall

/-! ## Resolutions and compositions -/

/-- A resolution of an enumerated document at rest answers its content. -/
theorem resolveDocument_eq_content (hs : s.AtRest lib) (hp : lib.contains path = true) :
    (lib.resolveDocument path s).1 = lib.content path := by
  have htrail : lib.IsTrail lib.documents.length s.inProgress path :=
    hs.idle ▸ IsTrail.start hp
  rw [resolveDocument, resolveWithin_eq_expandWithin hs.sound htrail, hs.idle, content]

/-- After a resolution the session is at rest again. -/
theorem Session.AtRest.resolveDocument (hs : s.AtRest lib) (path : DocumentPath) :
    (lib.resolveDocument path s).2.AtRest lib := by
  have hresolved := resolveWithin_run lib.documents.length path s hs.sound
  exact ⟨hs.sound.run hresolved.run, hresolved.inProgress.trans hs.idle⟩

/-- A resolution at rest answers the content of the document, whatever was asked before. -/
theorem resolve_eq_content (hs : s.AtRest lib) (path : DocumentPath) :
    (lib.resolve path s).1 = lib.content path := by
  rw [Library.resolve]
  cases hp : lib.contains path with
  | true => exact resolveDocument_eq_content hs hp
  | false => exact (content_of_not_contains hp).symm

/-- After a resolution the session is at rest again, also after one that failed. -/
theorem Session.AtRest.resolve (hs : s.AtRest lib) (path : DocumentPath) :
    (lib.resolve path s).2.AtRest lib := by
  rw [Library.resolve]
  split
  · exact hs.resolveDocument path
  · exact hs

/-- The catalog of some documents in turn, entered after others, with nothing remembered. -/
def enterAll (lib : Library) (catalog : Catalog) (documents : List DocumentPath) :
    Except ComposeError Catalog :=
  documents.foldlM (fun catalog document => do catalog.enter document (← lib.content document))
    catalog

/-- Composing documents enters their contents in turn, and leaves the session at rest. -/
theorem composeFrom_eq {documents : List DocumentPath} {catalog : Catalog}
    (hin : ∀ document ∈ documents, lib.contains document = true) (hs : s.AtRest lib) :
    (composeFrom lib.resolveDocument documents catalog s).1 = enterAll lib catalog documents ∧
      (composeFrom lib.resolveDocument documents catalog s).2.AtRest lib := by
  induction documents generalizing catalog s with
  | nil => exact ⟨rfl, hs⟩
  | cons document rest ih =>
    -- the session is at rest before each document, so its answer is its content
    have hcontent := resolveDocument_eq_content hs (hin document List.mem_cons_self)
    have hrest := hs.resolveDocument document
    rw [composeFrom]
    generalize lib.resolveDocument document s = answer at hcontent hrest
    obtain ⟨result, s₁⟩ := answer
    cases result with
    | error e =>
      refine ⟨?_, hrest⟩
      simp [enterAll, ← hcontent, bind, Except.bind]
    | ok schema =>
      dsimp only
      cases henter : catalog.enter document schema with
      | error e =>
        refine ⟨?_, hrest⟩
        simp [enterAll, ← hcontent, henter, bind, Except.bind]
      | ok entered =>
        obtain ⟨heq, hrest⟩ := @ih s₁ entered (fun d hd => hin d (List.mem_cons_of_mem _ hd)) hrest
        refine ⟨?_, hrest⟩
        dsimp only at heq ⊢
        rw [heq]
        simp [enterAll, ← hcontent, henter, bind, Except.bind]

/-- A composition at rest enters the contents of all documents in turn. -/
theorem compose_eq (hs : s.AtRest lib) : (lib.compose s).1 = enterAll lib .empty lib.documents :=
  (composeFrom_eq (fun _ => contains_iff.2) hs).1

/-- After a composition the session is at rest again, also after one that failed. -/
theorem Session.AtRest.compose (hs : s.AtRest lib) : (lib.compose s).2.AtRest lib :=
  (composeFrom_eq (fun _ => contains_iff.2) hs).2

/-- A new composer is at rest. -/
theorem Session.AtRest.start (hc : cache.Sound lib) : (Session.start cache).AtRest lib :=
  ⟨.start hc, rfl⟩

/-! ## Histories -/

/-- A sound cache may take the place of the one of a session. -/
theorem Session.AtRest.withCache (hs : s.AtRest lib) (hc : cache.Sound lib) :
    Session.AtRest lib { s with cache } :=
  ⟨⟨hc, hs.sound.resolved⟩, hs.idle⟩

/-- After every request a session is at rest again. -/
theorem Session.AtRest.perform (hs : s.AtRest lib) (request : Request) :
    (lib.perform s request).AtRest lib := by
  have hc := hs.sound.cached
  cases request with
  | load path => exact hs.withCache (hc.load path)
  | preload workers schedule => exact hs.withCache (hc.preload workers schedule)
  | directReferences path =>
    exact hs.withCache (directReferences_cache lib path s.cache ▸ hc.load path)
  | resolve path => exact hs.resolve path
  | compose => exact .start hs.compose.sound.cached
  | composeApart => exact hs.withCache (Session.AtRest.start hc).compose.sound.cached
  | newComposer => exact .start hc

/-- After every history a session is at rest. -/
theorem after_atRest (lib : Library) (requests : List Request) :
    (lib.after requests).AtRest lib := by
  have key : ∀ (requests : List Request) (s : Session), s.AtRest lib →
      (requests.foldl lib.perform s).AtRest lib := by
    intro requests
    induction requests with
    | nil => exact fun _ hs => hs
    | cons request rest ih => exact fun s hs => ih _ (hs.perform request)
  exact key requests _ (.start Cache.sound_nil)

/-- Resolution is inlining. After every history of requests a document resolves to what it resolves
to in a new session, be it a tree or an error, and the trees are those that inlining gives when
every reference is replaced by the content of its document, however often that content is needed. -/
theorem resolve_after_history (lib : Library) (requests : List Request) (path : DocumentPath) :
    (lib.resolve path (lib.after requests)).1 = (lib.resolve path (Session.start [])).1 ∧
      ∀ t, (lib.resolve path (lib.after requests)).1 = .ok t ↔
        ∃ levels, lib.inlined levels path = some t := by
  have hnew : (lib.resolve path (Session.start [])).1 = lib.content path :=
    resolve_eq_content (after_atRest lib []) path
  rw [resolve_eq_content (after_atRest lib requests) path, hnew]
  refine ⟨rfl, fun t => ⟨fun h => ?_, fun ⟨levels, h⟩ => ?_⟩⟩
  · exact ⟨lib.documents.length, content_eq_ok_iff.1 h⟩
  · exact content_of_inlined h

end EventSchema
