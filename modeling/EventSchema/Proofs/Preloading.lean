import EventSchema.Proofs.Histories
import EventSchema.Proofs.PathOrder
import Mathlib.Data.List.Forall2

/-!
# What a preload does, whoever goes on when

The workers of a preload share one cache, and a schedule says whose turn it is. What they load does
not depend on it: a document answers the same from the cache at the start and from any later one.

* `Library.loadFailure?` — why a document cannot be loaded, with some cache at hand;
* `flatten_batches` — the batches hold the pending documents, in order and without a gap;
* `Cache.Grown` — a later cache: everything in it was there at the start or was parsed since;
* `Worker.Progress`, `Preload.Progress` — how far a worker is, and all workers together, which one
  turn keeps (`Progress.step`) and so does a schedule (`Progress.run`);
* `batch_run_completion` — at the end no worker has anything left to do;
* `preload_eq` — so the answer is the first failure of the pending documents, or their number;
* `preload_any_schedule` — what is answered and what is cached afterwards, said of the library.
-/

namespace EventSchema

open Library

/-- Why a document cannot be loaded. -/
def Library.loadFailure? (lib : Library) (cache : Cache) (path : DocumentPath) :
    Option ComposeError :=
  match (lib.load path cache).1 with
  | .error e => some e
  | .ok _ => none

/-- A later cache. What it holds was there at the start, or was parsed since. -/
structure Cache.Grown (lib : Library) (start cache : Cache) : Prop where
  kept : ∀ q t, start.lookup q = some t → cache.lookup q = some t
  parsed : ∀ q t, cache.lookup q = some t → start.lookup q = some t ∨
    (start.lookup q = none ∧ lib.parse q = .ok t)

variable {lib : Library} {start cache : Cache} {p : Preload} {w : Worker} {path q : DocumentPath}
  {batch paths : List DocumentPath} {batches : List (List DocumentPath)} {index : Nat} {t : Tree}
  {e : ComposeError}

/-! ## Batches -/

/-- No item is lost by cutting a list into enough pieces. -/
theorem flatten_cut {α : Type} {size : Nat} (hsize : 0 < size) {pieces : Nat} {items : List α}
    (h : items.length ≤ pieces) : (cut size pieces items).flatten = items := by
  induction pieces generalizing items with
  | zero =>
    obtain rfl := List.length_eq_zero_iff.1 (Nat.le_zero.1 h)
    rfl
  | succ pieces ih =>
    cases items with
    | nil => rfl
    | cons item rest =>
      have hrest : ((item :: rest).drop size).length ≤ pieces := by
        rw [List.length_drop]
        omega
      rw [cut, List.flatten_cons, ih hrest, List.take_append_drop]
      exact List.cons_ne_nil _ _

/-- The batches hold all documents, in order. -/
theorem flatten_batches (workers : Nat) (paths : List DocumentPath) :
    (Library.batches workers paths).flatten = paths := by
  cases paths with
  | nil => rfl
  | cons path rest =>
    rw [Library.batches]
    refine flatten_cut (Nat.div_pos ?_ ?_) le_rfl
    · simp only [List.length_cons]
      omega
    · simp only [List.length_cons]
      omega

/-! ## Later caches -/

namespace Cache.Grown

/-- Nothing has changed yet. -/
theorem refl (lib : Library) (cache : Cache) : Cache.Grown lib cache cache :=
  ⟨fun _ _ h => h, fun _ _ h => .inl h⟩

/-- A document is loaded from a later cache with the same answer. -/
theorem load_eq (h : Cache.Grown lib start cache) (path : DocumentPath) :
    (lib.load path cache).1 = (lib.load path start).1 := by
  rw [Library.load, Library.load]
  cases hcache : cache.lookup path with
  | some t =>
    rcases h.parsed path t hcache with hstart | ⟨hstart, hparse⟩
    · simp only [hstart]
    · simp only [hstart, hparse]
  | none =>
    have hstart : start.lookup path = none := by
      cases hstart : start.lookup path with
      | none => rfl
      | some t => cases hcache.symm.trans (h.kept path t hstart)
    simp only [hstart]
    cases lib.parse path <;> rfl

/-- Why a document cannot be loaded does not change. -/
theorem loadFailure?_eq (h : Cache.Grown lib start cache) (path : DocumentPath) :
    lib.loadFailure? cache path = lib.loadFailure? start path := by
  rw [loadFailure?, loadFailure?, h.load_eq]

/-- Loading one more document makes a later cache. -/
theorem load (h : Cache.Grown lib start cache) (path : DocumentPath) :
    Cache.Grown lib start (lib.load path cache).2 := by
  rw [Library.load]
  cases hcache : cache.lookup path with
  | some t => exact h
  | none =>
    cases hparse : lib.parse path with
    | error e => exact h
    | ok tree =>
      have hstart : start.lookup path = none := by
        cases hstart : start.lookup path with
        | none => rfl
        | some t => cases hcache.symm.trans (h.kept path t hstart)
      refine ⟨fun q t hq => ?_, fun q t hq => ?_⟩
      · have hne : (q == path) = false := by
          rw [beq_eq_false_iff_ne]
          rintro rfl
          cases hstart.symm.trans hq
        simp only [List.lookup_cons, hne, h.kept q t hq]
      · by_cases hqp : q = path
        · subst hqp
          simp only [List.lookup_cons, beq_self_eq_true, Option.some.injEq] at hq
          exact .inr ⟨hstart, hq ▸ hparse⟩
        · have hne : (q == path) = false := by simpa using hqp
          simp only [List.lookup_cons, hne] at hq
          exact h.parsed q t hq

end Cache.Grown

/-- What was cached stays cached. -/
theorem isSome_lookup_load (h : (cache.lookup q).isSome = true) (path : DocumentPath) :
    ((lib.load path cache).2.lookup q).isSome = true := by
  obtain ⟨t, ht⟩ := Option.isSome_iff_exists.1 h
  rw [((Cache.Grown.refl lib cache).load path).kept q t ht]
  rfl

/-- A document that was loaded is cached. -/
theorem lookup_of_load {cache' : Cache} (h : lib.load path cache = (.ok t, cache')) :
    cache'.lookup path = some t := by
  rw [Library.load] at h
  cases hcache : cache.lookup path with
  | some t' =>
    simp only [hcache, Prod.mk.injEq, Except.ok.injEq] at h
    obtain ⟨rfl, rfl⟩ := h
    exact hcache
  | none =>
    cases hparse : lib.parse path with
    | error e => simp [hcache, hparse] at h
    | ok tree =>
      simp only [hcache, hparse, Prod.mk.injEq, Except.ok.injEq] at h
      obtain ⟨rfl, rfl⟩ := h
      simp

/-- A document that cannot be loaded changes no cache. -/
theorem cache_of_load_error {cache' : Cache} (h : lib.load path cache = (.error e, cache')) :
    cache' = cache := by
  rw [Library.load] at h
  cases hcache : cache.lookup path with
  | some t => simp [hcache] at h
  | none =>
    cases hparse : lib.parse path with
    | error e' =>
      simp only [hcache, hparse, Prod.mk.injEq] at h
      exact h.2.symm
    | ok tree => simp [hcache, hparse] at h

/-! ## One turn -/

/-- How far a worker is in its batch. The documents that it has done are cached; the others are left
to it, unless it stopped at one that cannot be loaded. -/
inductive Worker.Progress (lib : Library) (start cache : Cache) (batch : List DocumentPath) :
    Worker → Prop
  | working {done rest : List DocumentPath} (hbatch : batch = done ++ rest)
      (hdone : ∀ q ∈ done, (cache.lookup q).isSome = true) :
      Progress lib start cache batch ⟨rest, none⟩
  | stopped {done rest : List DocumentPath} {path : DocumentPath} {e : ComposeError}
      (hbatch : batch = done ++ path :: rest)
      (hdone : ∀ q ∈ done, (cache.lookup q).isSome = true)
      (hfails : lib.loadFailure? start path = some e) :
      Progress lib start cache batch ⟨[], some e⟩

/-- How far the workers are: the cache is a later one, and each worker is somewhere in its batch. -/
structure Preload.Progress (lib : Library) (start : Cache) (batches : List (List DocumentPath))
    (p : Preload) : Prop where
  grown : Cache.Grown lib start p.cache
  workers : List.Forall₂ (Worker.Progress lib start p.cache) batches p.workers

/-- A worker is as far as before when others have cached more. -/
theorem Worker.Progress.mono {cache' : Cache} (h : w.Progress lib start cache batch)
    (hcache : ∀ q, (cache.lookup q).isSome = true → (cache'.lookup q).isSome = true) :
    w.Progress lib start cache' batch := by
  cases h with
  | working hbatch hdone => exact .working hbatch fun q hq => hcache q (hdone q hq)
  | stopped hbatch hdone hfails => exact .stopped hbatch (fun q hq => hcache q (hdone q hq)) hfails

/-- What is cached stays so when a worker goes on. -/
theorem isSome_lookup_work (h : (cache.lookup q).isSome = true) (w : Worker) :
    ((Preload.work lib w cache).2.lookup q).isSome = true := by
  rcases Preload.work_cache lib w cache with hsame | ⟨path, hload⟩
  · rw [hsame]
    exact h
  · rw [hload]
    exact isSome_lookup_load h path

/-- A worker that goes on makes a later cache. -/
theorem Cache.Grown.work (h : Cache.Grown lib start cache) (w : Worker) :
    Cache.Grown lib start (Preload.work lib w cache).2 := by
  rcases Preload.work_cache lib w cache with hsame | ⟨path, hload⟩
  · rw [hsame]
    exact h
  · rw [hload]
    exact h.load path

/-- A worker that goes on has done one more document, or stops at it. -/
theorem Worker.Progress.work (h : w.Progress lib start cache batch)
    (hgrown : Cache.Grown lib start cache) :
    (Preload.work lib w cache).1.Progress lib start (Preload.work lib w cache).2 batch := by
  cases h with
  | stopped hbatch hdone hfails => exact .stopped hbatch hdone hfails
  | @working done rest hbatch hdone =>
    cases rest with
    | nil => exact .working hbatch hdone
    | cons path rest =>
      obtain ⟨result, cache', hload⟩ : ∃ result cache', lib.load path cache = (result, cache') :=
        ⟨_, _, rfl⟩
      cases result with
      | ok t =>
        have hcached : ∀ q ∈ done ++ [path], (cache'.lookup q).isSome = true := by
          intro q hq
          rcases List.mem_append.1 hq with hq | hq
          · have hstays : ((lib.load path cache).2.lookup q).isSome = true :=
              isSome_lookup_load (hdone q hq) path
            rwa [hload] at hstays
          · rw [List.mem_singleton.1 hq, lookup_of_load hload]
            rfl
        simp only [Preload.work, hload]
        exact .working (by rw [hbatch, List.append_assoc, List.singleton_append]) hcached
      | error e =>
        have hfails : lib.loadFailure? start path = some e := by
          rw [← hgrown.loadFailure?_eq, loadFailure?, hload]
        simp only [Preload.work, hload]
        exact .stopped hbatch (cache_of_load_error hload ▸ hdone) hfails

/-- The members of two lists stay related one by one when one member of the second is replaced. -/
theorem forall₂_set {α β : Type} {R R' : α → β → Prop} {as : List α} {bs : List β} {i : Nat}
    {b b' : β} (h : List.Forall₂ R as bs) (hget : bs[i]? = some b) (hmono : ∀ a c, R a c → R' a c)
    (hset : ∀ a, R a b → R' a b') : List.Forall₂ R' as (bs.set i b') := by
  induction h generalizing i with
  | nil => cases hget
  | @cons a c as bs hac hrest ih =>
    cases i with
    | zero =>
      obtain rfl := Option.some.inj hget
      exact .cons (hset a hac) (hrest.imp hmono)
    | succ i => exact .cons (hmono a c hac) (ih hget)

/-- A turn keeps the progress of all workers. -/
theorem Preload.Progress.step (h : p.Progress lib start batches) (index : Nat) :
    (p.step lib index).Progress lib start batches := by
  cases hw : p.workers[index]? with
  | none =>
    have hsame : p.step lib index = p := by simp only [Preload.step, hw]
    rw [hsame]
    exact h
  | some w =>
    have hnext : p.step lib index =
        ⟨p.workers.set index (Preload.work lib w p.cache).1, (Preload.work lib w p.cache).2⟩ := by
      simp only [Preload.step, hw]
    rw [hnext]
    exact ⟨h.grown.work w, forall₂_set h.workers hw
      (fun batch w' hw' => hw'.mono fun q hq => isSome_lookup_work hq w)
      fun batch hbatch => hbatch.work h.grown⟩

/-- A schedule keeps the progress of all workers. -/
theorem Preload.Progress.run (h : p.Progress lib start batches) (schedule : List Nat) :
    (p.run lib schedule).Progress lib start batches := by
  rw [Preload.run]
  induction schedule generalizing p with
  | nil => exact h
  | cons index rest ih => exact ih (h.step index)

/-- At the start no worker has done anything. -/
theorem progress_startPreload (lib : Library) (workers : Nat) (cache : Cache) :
    (lib.startPreload workers cache).Progress lib cache
      (Library.batches workers (lib.pending cache)) := by
  refine ⟨.refl lib cache, ?_⟩
  rw [startPreload]
  generalize Library.batches workers (lib.pending cache) = batches
  induction batches with
  | nil => exact .nil
  | cons batch rest ih => exact .cons (.working (List.nil_append batch).symm nofun) ih

/-! ## The end -/

/-- How many documents are left to a worker. -/
def Preload.left (p : Preload) (index : Nat) : Nat := (p.workers[index]?).elim 0 (·.batch.length)

/-- A worker that goes on has less left, if it had anything left. -/
theorem length_batch_work (lib : Library) (w : Worker) (cache : Cache) :
    (Preload.work lib w cache).1.batch.length ≤ w.batch.length - 1 := by
  rw [Preload.work]
  cases hbatch : w.batch with
  | nil => simp [hbatch]
  | cons path rest =>
    obtain ⟨result, cache', hload⟩ : ∃ result cache', lib.load path cache = (result, cache') :=
      ⟨_, _, rfl⟩
    cases result <;> simp [hload]

/-- A turn leaves less to the worker whose turn it is, and the same to the others. -/
theorem left_step (lib : Library) (p : Preload) (index other : Nat) :
    (p.step lib index).left other ≤ p.left other - if index = other then 1 else 0 := by
  cases hw : p.workers[index]? with
  | none =>
    have hsame : p.step lib index = p := by simp only [Preload.step, hw]
    rw [hsame]
    split
    · next h =>
      subst h
      simp [Preload.left, hw]
    · exact le_rfl
  | some w =>
    have hnext : (p.step lib index).workers =
        p.workers.set index (Preload.work lib w p.cache).1 := by
      simp only [Preload.step, hw]
    rw [Preload.left, hnext, List.getElem?_set]
    split
    · next h =>
      subst h
      have hlt : index < p.workers.length := (List.getElem?_eq_some_iff.1 hw).1
      simp only [hlt, if_true, Preload.left, hw, Option.elim]
      exact length_batch_work lib w p.cache
    · exact le_rfl

/-- After a schedule each worker has less left by the number of its turns. -/
theorem left_run (lib : Library) (schedule : List Nat) (p : Preload) (index : Nat) :
    (p.run lib schedule).left index ≤ p.left index - schedule.count index := by
  rw [Preload.run]
  induction schedule generalizing p with
  | nil => exact le_rfl
  | cons turn rest ih =>
    have hstep := left_step lib p turn index
    have hrest := ih (p.step lib turn)
    rw [List.foldl_cons, List.count_cons]
    simp only [beq_iff_eq]
    omega

/-- In the completion each worker has as many turns as it has documents left. -/
theorem left_le_count_completion (p : Preload) (index : Nat) :
    p.left index ≤ p.completion.count index := by
  rw [Preload.left]
  cases hw : p.workers[index]? with
  | none => exact Nat.zero_le _
  | some w =>
    have hmem : (w, index) ∈ p.workers.zipIdx := List.mk_mem_zipIdx_iff_getElem?.2 hw
    have hturns : (List.replicate w.batch.length index).Sublist p.completion := by
      rw [Preload.completion, List.flatMap]
      exact List.sublist_flatten_of_mem (List.mem_map.2 ⟨(w, index), hmem, rfl⟩)
    have hcount := hturns.count_le index
    rwa [List.count_replicate_self] at hcount

/-- At the end nothing is left to any worker. -/
theorem batch_run_completion (lib : Library) (p : Preload) :
    ∀ w ∈ (p.run lib p.completion).workers, w.batch = [] := by
  intro w hw
  obtain ⟨index, hget⟩ := List.mem_iff_getElem?.1 hw
  have hleft := left_run lib p.completion p index
  have hturns := left_le_count_completion p index
  have hlength : (p.run lib p.completion).left index = w.batch.length := by
    rw [Preload.left, hget]
    rfl
  exact List.length_eq_zero_iff.1 (by omega)

/-- A cached document can be loaded. -/
theorem loadFailure?_of_lookup (h : (cache.lookup q).isSome = true) :
    lib.loadFailure? cache q = none := by
  obtain ⟨t, ht⟩ := Option.isSome_iff_exists.1 h
  simp only [loadFailure?, Library.load, ht]

/-- What a worker that has finished reports: the first failure of its batch. -/
theorem Worker.Progress.failure_eq (h : w.Progress lib start cache batch)
    (hgrown : Cache.Grown lib start cache) (hfinished : w.batch = []) :
    w.failure = batch.findSome? (lib.loadFailure? start) := by
  have hnone : ∀ done : List DocumentPath, (∀ q ∈ done, (cache.lookup q).isSome = true) →
      done.findSome? (lib.loadFailure? start) = none := by
    intro done hdone
    rw [List.findSome?_eq_none_iff]
    intro q hq
    rw [← hgrown.loadFailure?_eq]
    exact loadFailure?_of_lookup (hdone q hq)
  cases h with
  | working hbatch hdone =>
    obtain rfl := hfinished
    rw [hbatch, List.append_nil, hnone _ hdone]
  | stopped hbatch hdone hfails =>
    rw [hbatch, List.findSome?_append, hnone _ hdone, Option.none_or, List.findSome?_cons, hfails]

/-- What a worker that has finished has cached: every document of its batch, unless that document or
one in front of it fails. -/
theorem Worker.Progress.isSome_lookup (h : w.Progress lib start cache batch)
    (hfinished : w.batch = []) (hordered : DocumentPath.Ordered batch) (hq : q ∈ batch)
    (hloads : ∀ r ∈ batch, r = q ∨ r.before q = true → lib.loadFailure? start r = none) :
    (cache.lookup q).isSome = true := by
  cases h with
  | working hbatch hdone =>
    obtain rfl := hfinished
    rw [hbatch, List.append_nil] at hq
    exact hdone q hq
  | @stopped done rest path e hbatch hdone hfails =>
    subst hbatch
    rcases List.mem_append.1 hq with hq | hq
    · exact hdone q hq
    · -- the document where the worker stopped is this one or stands in front of it
      have hfront : path = q ∨ path.before q = true := by
        rcases List.mem_cons.1 hq with rfl | hq
        · exact .inl rfl
        · exact .inr ((List.pairwise_cons.1 (List.pairwise_append.1 hordered).2.1).1 q hq)
      cases hfails.symm.trans (hloads path (by simp) hfront)

/-- What the workers report when all have finished: the first failure of all batches. -/
theorem Preload.Progress.failure?_eq (h : p.Progress lib start batches)
    (hfinished : ∀ w ∈ p.workers, w.batch = []) :
    p.failure? = batches.flatten.findSome? (lib.loadFailure? start) := by
  obtain ⟨hgrown, hworkers⟩ := h
  rw [Preload.failure?]
  generalize p.workers = workers at hworkers hfinished
  induction hworkers with
  | nil => rfl
  | @cons batch w batches workers hw _ ih =>
    rw [List.findSome?_cons, List.flatten_cons, List.findSome?_append,
      ← hw.failure_eq hgrown (hfinished w List.mem_cons_self),
      ← ih fun w' hw' => hfinished w' (List.mem_cons_of_mem _ hw')]
    cases w.failure <;> rfl

/-- Each batch has its worker. -/
theorem Preload.Progress.exists_worker (h : p.Progress lib start batches)
    (hbatch : batch ∈ batches) : ∃ w ∈ p.workers, w.Progress lib start p.cache batch := by
  obtain ⟨-, hworkers⟩ := h
  generalize p.workers = workers at hworkers ⊢
  induction hworkers with
  | nil => cases hbatch
  | @cons first w batches workers hw _ ih =>
    rcases List.mem_cons.1 hbatch with rfl | hbatch
    · exact ⟨w, List.mem_cons_self, hw⟩
    · obtain ⟨w', hw', hprogress⟩ := ih hbatch
      exact ⟨w', List.mem_cons_of_mem _ hw', hprogress⟩

/-! ## The whole preload -/

/-- The state at the end of a preload. -/
def Library.finishPreload (lib : Library) (workers : Nat) (schedule : List Nat) (cache : Cache) :
    Preload :=
  let p := (lib.startPreload workers cache).run lib schedule
  p.run lib p.completion

section Finish

variable (lib : Library) (workers : Nat) (schedule : List Nat) (cache : Cache)

/-- At the end every worker has gone as far as it can. -/
theorem progress_finishPreload :
    (lib.finishPreload workers schedule cache).Progress lib cache
      (Library.batches workers (lib.pending cache)) :=
  ((progress_startPreload lib workers cache).run schedule).run _

/-- At the end no worker has anything left to do. -/
theorem batch_finishPreload :
    ∀ w ∈ (lib.finishPreload workers schedule cache).workers, w.batch = [] :=
  batch_run_completion lib ((lib.startPreload workers cache).run lib schedule)

/-- The answer of a preload depends on the library and the cache alone: it is the first failure of
the pending documents, or else their number. -/
theorem preload_eq :
    lib.preload workers schedule cache =
      (match (lib.pending cache).findSome? (lib.loadFailure? cache) with
        | some e => .error e
        | none => .ok (lib.pending cache).length,
        (lib.finishPreload workers schedule cache).cache) := by
  have hfailure := (progress_finishPreload lib workers schedule cache).failure?_eq
    (batch_finishPreload lib workers schedule cache)
  rw [flatten_batches] at hfailure
  rw [← hfailure]
  have hpreload : lib.preload workers schedule cache =
      match (lib.finishPreload workers schedule cache).failure? with
      | some e => (.error e, (lib.finishPreload workers schedule cache).cache)
      | none => (.ok (lib.pending cache).length,
          (lib.finishPreload workers schedule cache).cache) := rfl
  rw [hpreload]
  cases (lib.finishPreload workers schedule cache).failure? <;> rfl

/-- A document is cached at the end if it and all documents before it can be loaded. -/
theorem isSome_lookup_finishPreload (hordered : DocumentPath.Ordered lib.documents)
    (hq : q ∈ lib.documents)
    (hloads : ∀ r ∈ lib.documents, r = q ∨ r.before q = true → lib.loadFailure? cache r = none) :
    ((lib.finishPreload workers schedule cache).cache.lookup q).isSome = true := by
  have hprogress := progress_finishPreload lib workers schedule cache
  cases hcached : cache.lookup q with
  | some t =>
    rw [hprogress.grown.kept q t hcached]
    rfl
  | none =>
    have hpending : q ∈ (Library.batches workers (lib.pending cache)).flatten := by
      rw [flatten_batches, pending, List.mem_filter]
      exact ⟨hq, by simp [hcached]⟩
    obtain ⟨batch, hbatch, hmem⟩ := List.mem_flatten.1 hpending
    obtain ⟨w, hw, hworker⟩ := hprogress.exists_worker hbatch
    -- a batch is a part of the documents of the library, in the same order
    have hpart : batch.Sublist lib.documents := by
      have hflat := List.sublist_flatten_of_mem hbatch
      rw [flatten_batches] at hflat
      exact hflat.trans List.filter_sublist
    exact hworker.isSome_lookup (batch_finishPreload lib workers schedule cache w hw)
      (List.Pairwise.sublist hpart hordered) hmem fun r hr => hloads r (hpart.subset hr)

end Finish

/-- A document can be loaded if nothing is wrong with it. -/
theorem loadFailure?_eq_none_iff :
    lib.loadFailure? cache q = none ↔ ∃ t, (lib.load q cache).1 = .ok t := by
  rw [loadFailure?]
  cases (lib.load q cache).1 <;> simp

/-- A document cannot be loaded for some reason. -/
theorem loadFailure?_eq_some_iff :
    lib.loadFailure? cache q = some e ↔ (lib.load q cache).1 = .error e := by
  rw [loadFailure?]
  cases (lib.load q cache).1 <;> simp

/-- A document that is not pending is cached, so nothing is wrong with it. -/
theorem loadFailure?_of_not_pending (hq : q ∈ lib.documents) (hnot : q ∉ lib.pending cache) :
    lib.loadFailure? cache q = none := by
  cases hcached : cache.lookup q with
  | some t => exact loadFailure?_of_lookup (by rw [hcached]; rfl)
  | none => exact absurd (List.mem_filter.2 ⟨hq, by rw [hcached]; rfl⟩) hnot

/-- A document is the first one of a library that cannot be loaded. -/
structure Library.FirstUnloadable (lib : Library) (cache : Cache) (path : DocumentPath)
    (e : ComposeError) : Prop where
  enumerated : path ∈ lib.documents
  fails : (lib.load path cache).1 = .error e
  first : ∀ q ∈ lib.documents, q.before path = true → ∃ t, (lib.load q cache).1 = .ok t

/-- A preload gives the answer of loading one document after the other, however many workers there
are and whoever goes on when. From any cache,
* if all documents can be loaded, the answer is the number of those that were not cached, and all
  are cached afterwards;
* otherwise it is the error of the first document in path order that cannot be loaded, and all
  documents before it are cached afterwards;
* what was cached stays as it was, and every other tree is the one that loading the document alone
  would have cached. -/
theorem preload_any_schedule (source : Source) (paths : List DocumentPath) (workers : Nat)
    (schedule : List Nat) (cache : Cache) :
    let lib := Library.ofPaths source paths
    let (answer, after) := lib.preload workers schedule cache
    ((∀ q ∈ lib.documents, ∃ t, (lib.load q cache).1 = .ok t) ∧
          answer = .ok (lib.pending cache).length ∧
          (∀ q ∈ lib.documents, (after.lookup q).isSome = true) ∨
        ∃ path e, lib.FirstUnloadable cache path e ∧ answer = .error e ∧
          ∀ q ∈ lib.documents, q.before path = true → (after.lookup q).isSome = true) ∧
      (∀ q t, cache.lookup q = some t → after.lookup q = some t) ∧
      ∀ q t, after.lookup q = some t → (lib.load q cache).2.lookup q = some t := by
  intro lib
  have hordered : DocumentPath.Ordered lib.documents := ordered_documents source paths
  have hgrown := (progress_finishPreload lib workers schedule cache).grown
  rw [preload_eq]
  refine ⟨?_, hgrown.kept, fun q t hq => ?_⟩
  · cases hfirst : (lib.pending cache).findSome? (lib.loadFailure? cache) with
    | none =>
      have hall : ∀ q ∈ lib.documents, lib.loadFailure? cache q = none := by
        intro q hq
        by_cases hpending : q ∈ lib.pending cache
        · exact List.findSome?_eq_none_iff.1 hfirst q hpending
        · exact loadFailure?_of_not_pending hq hpending
      exact .inl ⟨fun q hq => loadFailure?_eq_none_iff.1 (hall q hq), rfl, fun q hq =>
        isSome_lookup_finishPreload lib workers schedule cache hordered hq fun r hr _ => hall r hr⟩
    | some e =>
      obtain ⟨front, path, rest, hsplit, hfails, hfront⟩ := List.findSome?_eq_some_iff.1 hfirst
      have hpending : DocumentPath.Ordered (front ++ path :: rest) :=
        hsplit ▸ List.Pairwise.sublist List.filter_sublist hordered
      have hpath : path ∈ lib.pending cache := hsplit ▸ by simp
      have hbefore : ∀ q ∈ lib.documents, q.before path = true →
          lib.loadFailure? cache q = none := by
        intro q hq hlt
        by_cases hmem : q ∈ lib.pending cache
        · exact hfront q (hpending.mem_of_before (hsplit ▸ hmem) hlt)
        · exact loadFailure?_of_not_pending hq hmem
      refine .inr ⟨path, e, ⟨(List.mem_filter.1 hpath).1, loadFailure?_eq_some_iff.1 hfails,
        fun q hq hlt => loadFailure?_eq_none_iff.1 (hbefore q hq hlt)⟩, rfl, fun q hq hlt => ?_⟩
      refine isSome_lookup_finishPreload lib workers schedule cache hordered hq fun r hr hrq => ?_
      rcases hrq with rfl | hrq
      · exact hbefore r hr hlt
      · exact hbefore r hr (DocumentPath.before_trans hrq hlt)
  · rcases hgrown.parsed q t hq with hstart | ⟨hstart, hparse⟩
    · simp only [Library.load, hstart]
    · simp [Library.load, hstart, hparse]

end EventSchema
