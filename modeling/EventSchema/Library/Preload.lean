import EventSchema.Library

/-!
# Preloading

All documents of a library are loaded ahead, by several workers at once. The documents that are not
in the cache yet are dealt out in path order, in batches of one size. Each worker loads the
documents of its batch in turn and stops at the first that fails. The workers share the cache; a
schedule says who goes on next, and the loading of one document is never interrupted.

* `Library.pending`, `batches` — the work;
* `Worker`, `Preload` — a worker and the state of a preload;
* `Preload.step`, `run` — one document more, and a whole schedule;
* `Library.preload` — the outcome once all have finished: how many documents were new, or the
  failure of the first batch that has one.
-/

namespace EventSchema

/-- A worker: the documents that are left to it, and the failure that stopped it. -/
structure Worker where
  batch : List DocumentPath
  failure : Option ComposeError

/-- The state of a preload. -/
structure Preload where
  workers : List Worker
  cache : Cache

namespace Library

/-- The documents that are not in the cache. -/
def pending (lib : Library) (cache : Cache) : List DocumentPath :=
  lib.documents.filter fun path => (cache.lookup path).isNone

/-- A list cut into pieces of one size, the last of which may be shorter. -/
def cut {α : Type} (size : Nat) : Nat → List α → List (List α)
  | 0, _ => []
  | _ + 1, [] => []
  | pieces + 1, items => items.take size :: cut size pieces (items.drop size)

/-- The batches for some workers, of which at least one is there: not more batches than workers. -/
def batches (workers : Nat) (paths : List DocumentPath) : List (List DocumentPath) :=
  let workers := min (max workers 1) paths.length
  cut ((paths.length + workers - 1) / workers) paths.length paths

end Library

namespace Preload

/-- A worker loads the next document of its batch, unless it has none left. -/
def work (lib : Library) (w : Worker) (cache : Cache) : Worker × Cache :=
  match w.batch with
  | [] => (w, cache)
  | path :: rest =>
    match lib.load path cache with
    | (.ok _, cache) => ({ w with batch := rest }, cache)
    | (.error e, cache) => (⟨[], some e⟩, cache)

/-- The worker at a place of the list goes on by one document. -/
def step (lib : Library) (p : Preload) (index : Nat) : Preload :=
  match p.workers[index]? with
  | none => p
  | some w =>
    let (w, cache) := work lib w p.cache
    ⟨p.workers.set index w, cache⟩

/-- The workers go on one document at a time, in the order of a schedule. -/
def run (lib : Library) (schedule : List Nat) (p : Preload) : Preload := schedule.foldl (step lib) p

/-- A schedule after which every worker has finished: each in turn as often as its batch is long. -/
def completion (p : Preload) : List Nat :=
  p.workers.zipIdx.flatMap fun (w, index) => List.replicate w.batch.length index

/-- The first failure in the order of the batches. -/
def failure? (p : Preload) : Option ComposeError := p.workers.findSome? (·.failure)

end Preload

namespace Library

/-- A preload before its first step. -/
def startPreload (lib : Library) (workers : Nat) (cache : Cache) : Preload :=
  ⟨(batches workers (lib.pending cache)).map (⟨·, none⟩), cache⟩

/-- Loads all documents of the library with some workers. After the steps of the schedule those that
are not finished go on in turn. -/
def preload (lib : Library) (workers : Nat) (schedule : List Nat) (cache : Cache) :
    Except ComposeError Nat × Cache :=
  let p := (lib.startPreload workers cache).run lib schedule
  let p := p.run lib p.completion
  match p.failure? with
  | some e => (.error e, p.cache)
  | none => (.ok (lib.pending cache).length, p.cache)

end Library

end EventSchema
