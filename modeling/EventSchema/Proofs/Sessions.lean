import EventSchema.Proofs.Expansion

/-!
# What a session remembers

A session remembers parsed trees and resolved documents, and it goes on doing so after a failure.

* `Session.Step`, `Session.Run` — the changes of a session: a tree is cached, a document is kept
  that was assembled from documents kept before it, or a document enters or leaves progress;
* `Session.Sound` — cached trees are parsed ones and kept contents are inlined ones, which no change
  breaks (`Sound.run`);
* `resolveWithin_run` — a resolution is a run. It changes nothing about the documents in progress,
  and keeps what it answers;
* `resolveWithin_eq_expandWithin` — its answer is the one that expansion gives without a memory.
-/

namespace EventSchema

open Library

/-- The cached trees are those of their documents. -/
def Cache.Sound (lib : Library) (cache : Cache) : Prop :=
  ∀ q t, cache.lookup q = some t → lib.parse q = .ok t

namespace Session

/-- One change of a session, which concerns a document in a scope. -/
inductive Step (lib : Library) (scope : DocumentPath → Prop) : Session → Session → Prop
  /-- a tree is cached -/
  | load {s : Session} {path : DocumentPath} {tree : Tree} (hscope : scope path)
      (hnew : s.cache.lookup path = none) (hparse : lib.parse path = .ok tree) :
      Step lib scope s { s with cache := (path, tree) :: s.cache }
  /-- a document is kept, assembled from documents that were kept before -/
  | keep {s : Session} {path : DocumentPath} {raw tree : Tree} {targets : List DocumentPath}
      {contents : List (DocumentPath × Tree)} (hscope : scope path)
      (hnew : s.content? path = none) (hparse : lib.parse path = .ok raw)
      (htargets : referencedPaths path (located path raw) = .ok targets)
      (hmap : contents.map (·.1) = targets) (hkept : ∀ e ∈ contents, s.content? e.1 = some e.2)
      (htree : assemble path (located path raw) contents = .ok tree) :
      Step lib scope s (s.keep path tree)
  /-- documents enter or leave progress -/
  | turn (s : Session) (inProgress : List DocumentPath) : Step lib scope s { s with inProgress }

/-- Any number of changes. -/
abbrev Run (lib : Library) (scope : DocumentPath → Prop) : Session → Session → Prop :=
  Relation.ReflTransGen (Step lib scope)

/-- Whatever a session remembers is so without it as well. -/
structure Sound (lib : Library) (s : Session) : Prop where
  cached : s.cache.Sound lib
  resolved : ∀ q t, s.content? q = some t → ∃ n, lib.inlined n q = some t

variable {lib : Library} {scope scope' : DocumentPath → Prop} {s s' : Session} {q : DocumentPath}
  {t : Tree}

/-! ## Changes -/

/-- A change in a smaller scope. -/
theorem Step.mono (hscope : ∀ q, scope q → scope' q) (h : Step lib scope s s') :
    Step lib scope' s s' := by
  cases h with
  | load hs hnew hparse => exact .load (hscope _ hs) hnew hparse
  | keep hs hnew hparse htargets hmap hkept htree =>
    exact .keep (hscope _ hs) hnew hparse htargets hmap hkept htree
  | turn => exact .turn _ _

/-- A run in a smaller scope. -/
theorem Run.mono (hscope : ∀ q, scope q → scope' q) (h : Run lib scope s s') :
    Run lib scope' s s' :=
  Relation.ReflTransGen.mono (fun _ _ => Step.mono hscope) _ _ h

/-- A document that is kept is found afterwards, and the others are found as before. -/
theorem content?_keep (s : Session) (path : DocumentPath) (tree : Tree) (q : DocumentPath) :
    (s.keep path tree).content? q = if q = path then some tree else s.content? q := by
  by_cases h : q = path
  · simp [content?, keep, h]
  · have hne : (q == path) = false := by simpa using h
    simp [content?, keep, List.lookup_cons, h, hne]

/-- No change concerns a document outside the scope. -/
theorem Step.content?_of_not (h : Step lib scope s s') (hq : ¬ scope q) :
    s'.content? q = s.content? q := by
  cases h with
  | load => rfl
  | turn => rfl
  | keep hs =>
    rw [content?_keep, if_neg]
    rintro rfl
    exact hq hs

/-- No run concerns a document outside the scope. -/
theorem Run.content?_of_not (h : Run lib scope s s') (hq : ¬ scope q) :
    s'.content? q = s.content? q := by
  induction h with
  | refl => rfl
  | tail _ hstep ih => rw [hstep.content?_of_not hq, ih]

/-- What is kept stays. -/
theorem Step.content? (h : Step lib scope s s') (hq : s.content? q = some t) :
    s'.content? q = some t := by
  cases h with
  | load => exact hq
  | turn => exact hq
  | keep _ hnew =>
    rw [content?_keep, if_neg, hq]
    rintro rfl
    rw [hnew] at hq
    cases hq

/-- What is kept stays, over any number of changes. -/
theorem Run.content? (h : Run lib scope s s') (hq : s.content? q = some t) :
    s'.content? q = some t := by
  induction h with
  | refl => exact hq
  | tail _ hstep ih => exact hstep.content? ih

/-! ## Soundness -/

/-- One number of levels is enough for several contents. -/
theorem exists_levels {contents : List (DocumentPath × Tree)}
    (h : ∀ e ∈ contents, ∃ n, lib.inlined n e.1 = some e.2) :
    ∃ n, ∀ e ∈ contents, lib.inlined n e.1 = some e.2 := by
  induction contents with
  | nil => exact ⟨0, by simp⟩
  | cons e rest ih =>
    obtain ⟨n, hn⟩ := h e List.mem_cons_self
    obtain ⟨m, hm⟩ := ih fun d hd => h d (List.mem_cons_of_mem _ hd)
    refine ⟨max n m, fun d hd => ?_⟩
    rcases List.mem_cons.1 hd with rfl | hd
    · exact inlined_mono_le (Nat.le_max_left n m) hn
    · exact inlined_mono_le (Nat.le_max_right n m) (hm d hd)

/-- No change makes a session unsound. -/
theorem Sound.step (hs : s.Sound lib) (h : Step lib scope s s') : s'.Sound lib := by
  cases h with
  | turn => exact ⟨hs.cached, hs.resolved⟩
  | @load path tree _ _ hparse =>
    refine ⟨fun q t hq => ?_, hs.resolved⟩
    by_cases hqp : q = path
    · subst hqp
      simp only [List.lookup_cons, beq_self_eq_true, Option.some.injEq] at hq
      exact hq ▸ hparse
    · have hne : (q == path) = false := by simpa using hqp
      simp only [List.lookup_cons, hne] at hq
      exact hs.cached q t hq
  | @keep path raw tree targets contents _ _ hparse htargets hmap hkept htree =>
    refine ⟨hs.cached, fun q t hq => ?_⟩
    rw [content?_keep] at hq
    split at hq
    · next hqp =>
      subst hqp
      obtain rfl := Option.some.inj hq
      obtain ⟨n, hn⟩ := exists_levels fun e he => hs.resolved e.1 e.2 (hkept e he)
      refine ⟨n + 1, inlined_succ_eq_some_iff.2
        ⟨raw, hparse, fun r hr => ?_, (assemble_inlined htargets hmap hn).1 htree⟩⟩
      obtain ⟨p, -, rfl⟩ := ofText_of_mem_targets hr
      obtain ⟨e, he, rfl⟩ := List.mem_map.1 (hmap ▸ (mem_referencedPaths htargets).2 hr)
      exact ⟨e.2, by rw [inlinedAt_text, hn e he]⟩
    · exact hs.resolved q t hq

/-- No run makes a session unsound. -/
theorem Sound.run (hs : s.Sound lib) (h : Run lib scope s s') : s'.Sound lib := by
  induction h with
  | refl => exact hs
  | tail _ hstep ih => exact ih.step hstep

/-- A new session is sound if its cache is. -/
theorem Sound.start {cache : Cache} (hc : cache.Sound lib) : (Session.start cache).Sound lib :=
  ⟨hc, fun _ _ hq => by simp [Session.content?, Session.start] at hq⟩

end Session

/-! ## Loading -/

namespace Library

variable {lib : Library} {path : DocumentPath} {s : Session} {cache : Cache}

/-- Loading answers what parsing does. -/
theorem load_eq_parse (hc : cache.Sound lib) (path : DocumentPath) :
    (lib.load path cache).1 = lib.parse path := by
  rw [load]
  cases hl : cache.lookup path with
  | some tree => exact (hc path tree hl).symm
  | none => cases lib.parse path <;> rfl

/-- Loading is a run that concerns one document. -/
theorem load_run (lib : Library) (path : DocumentPath) (s : Session) :
    Session.Run lib (· = path) s (s.withCache (lib.load path)).2 := by
  rw [Session.withCache, load]
  cases hl : s.cache.lookup path with
  | some tree => exact .refl
  | none =>
    cases hp : lib.parse path with
    | error e => exact .refl
    | ok tree => exact .single (.load rfl hl hp)

/-- The answer of the loading step of a session. -/
theorem withCache_load_eq (hs : s.Sound lib) (path : DocumentPath) :
    (s.withCache (lib.load path)).1 = lib.parse path :=
  load_eq_parse hs.cached path

end Library

/-! ## Resolution -/

section Resolution

variable {lib : Library} {resolve : Resolver} {path : DocumentPath} {s : Session} {room : Nat}

/-- A document that cannot be parsed is not resolved, and nothing is remembered. -/
theorem resolveWith_of_parse_error {e : ComposeError} (hs : s.Sound lib)
    (hparse : lib.parse path = .error e) :
    resolveWith lib resolve path s = (.error e, (s.withCache (lib.load path)).2) := by
  have hload : s.withCache (lib.load path) = (.error e, (s.withCache (lib.load path)).2) :=
    Prod.ext ((withCache_load_eq hs path).trans hparse) rfl
  rw [resolveWith]
  rw [hload]

/-- A document that was parsed is assembled once its targets are resolved. -/
theorem resolveWith_of_parse {raw : Tree} {targets : List DocumentPath}
    {answer : Except ComposeError (List (DocumentPath × Tree))} {s₁ : Session} (hs : s.Sound lib)
    (hparse : lib.parse path = .ok raw)
    (htargets : referencedPaths path (located path raw) = .ok targets)
    (hanswer : resolveTargets lib resolve path targets (s.withCache (lib.load path)).2 =
      (answer, s₁)) :
    resolveWith lib resolve path s = (answer.bind (assemble path (located path raw)), s₁) := by
  have hload : s.withCache (lib.load path) = (.ok raw, (s.withCache (lib.load path)).2) :=
    Prod.ext ((withCache_load_eq hs path).trans hparse) rfl
  rw [resolveWith]
  rw [hload]
  cases answer <;> simp [htargets, hanswer, Except.bind]

/-- What a resolution may concern: the documents that it reaches and that are not in progress. -/
abbrev Session.scope (lib : Library) (path : DocumentPath) (s : Session) (q : DocumentPath) :
    Prop :=
  lib.Reaches path q ∧ q ∉ s.inProgress

/-- The scope depends on what is in progress, and on nothing that is remembered. -/
theorem Session.scope_congr {s s' : Session} (h : s'.inProgress = s.inProgress) :
    s'.scope lib path = s.scope lib path := by
  funext q
  rw [Session.scope, h]

/-- What a resolution of a document does to a session: a run in its scope, after which the same
documents are in progress as before, and which keeps the answer. -/
structure Resolved (lib : Library) (path : DocumentPath) (s : Session)
    (answer : Except ComposeError Tree × Session) : Prop where
  run : Session.Run lib (s.scope lib path) s answer.2
  inProgress : answer.2.inProgress = s.inProgress
  kept : ∀ t, answer.1 = .ok t → answer.2.content? path = some t

/-- The same for targets in turn: all their contents are kept at the end. -/
structure TargetsResolved (lib : Library) (referrer : DocumentPath) (targets : List DocumentPath)
    (s : Session) (answer : Except ComposeError (List (DocumentPath × Tree)) × Session) : Prop where
  run : Session.Run lib (s.scope lib referrer) s answer.2
  inProgress : answer.2.inProgress = s.inProgress
  kept : ∀ contents, answer.1 = .ok contents → contents.map (·.1) = targets ∧
    ∀ e ∈ contents, answer.2.content? e.1 = some e.2

section Targets

variable {referrer target : DocumentPath} {rest : List DocumentPath} {s₁ s₂ : Session}

/-- A target outside the library ends the resolution of targets. -/
theorem resolveTargets_cons_outside (h : lib.contains target = false) :
    resolveTargets lib resolve referrer (target :: rest) s =
      (.error (.unresolvedReference referrer target), s) := by
  simp [resolveTargets, h]

/-- A target that fails ends the resolution of targets. -/
theorem resolveTargets_cons_error {e : ComposeError} (h : lib.contains target = true)
    (hfirst : resolve target s = (.error e, s₁)) :
    resolveTargets lib resolve referrer (target :: rest) s = (.error e, s₁) := by
  simp [resolveTargets, h, hfirst]

/-- A target that succeeds is followed by the others. -/
theorem resolveTargets_cons_ok {content : Tree}
    {more : Except ComposeError (List (DocumentPath × Tree))}
    (h : lib.contains target = true) (hfirst : resolve target s = (.ok content, s₁))
    (hrest : resolveTargets lib resolve referrer rest s₁ = (more, s₂)) :
    resolveTargets lib resolve referrer (target :: rest) s =
      (more.map ((target, content) :: ·), s₂) := by
  cases more <;> simp [resolveTargets, h, hfirst, hrest, Except.map]

end Targets

/-- Resolving targets in turn is a run. -/
theorem resolveTargets_run {referrer : DocumentPath} {targets : List DocumentPath}
    (hresolve : ∀ target s, Session.Sound lib s → Resolved lib target s (resolve target s))
    (hrefers : ∀ target ∈ targets, lib.Refers referrer target) (hs : s.Sound lib) :
    TargetsResolved lib referrer targets s (resolveTargets lib resolve referrer targets s) := by
  induction targets generalizing s with
  | nil => exact ⟨.refl, rfl, fun contents h => by obtain rfl := Except.ok.inj h; simp⟩
  | cons target rest ih =>
    have href : lib.Reaches referrer target := .single (hrefers target List.mem_cons_self)
    cases hin : lib.contains target with
    | false =>
      rw [resolveTargets_cons_outside hin]
      exact ⟨.refl, rfl, fun _ h => by cases h⟩
    | true =>
      obtain ⟨result, s₁, hanswer⟩ : ∃ result s₁, resolve target s = (result, s₁) := ⟨_, _, rfl⟩
      have hfirst := hresolve target s hs
      rw [hanswer] at hfirst
      have hrun : Session.Run lib (s.scope lib referrer) s s₁ :=
        hfirst.run.mono fun q hq => ⟨href.trans hq.1, hq.2⟩
      have hprogress : s₁.inProgress = s.inProgress := hfirst.inProgress
      cases result with
      | error e =>
        rw [resolveTargets_cons_error hin hanswer]
        exact ⟨hrun, hprogress, fun _ h => by cases h⟩
      | ok content =>
        obtain ⟨more, s₂, hmore⟩ :
            ∃ more s₂, resolveTargets lib resolve referrer rest s₁ = (more, s₂) := ⟨_, _, rfl⟩
        have hrest := ih (fun q hq => hrefers q (List.mem_cons_of_mem _ hq)) (hs.run hrun)
        rw [hmore] at hrest
        obtain ⟨hrun₂, hprogress₂, hkept₂⟩ := hrest
        rw [Session.scope_congr hprogress] at hrun₂
        rw [resolveTargets_cons_ok hin hanswer hmore]
        refine ⟨hrun.trans hrun₂, hprogress₂.trans hprogress, fun contents h => ?_⟩
        cases more with
        | error e => cases h
        | ok more =>
          obtain rfl := Except.ok.inj h
          obtain ⟨hmap, hall⟩ := hkept₂ more rfl
          refine ⟨by rw [List.map_cons, hmap], fun e he => ?_⟩
          rcases List.mem_cons.1 he with rfl | he
          · exact hrun₂.content? (hfirst.kept content rfl)
          · exact hall e he

/-- A document in progress is assembled by a run that keeps none of the documents in progress, the
document itself included. -/
theorem resolveWith_run
    (hresolve : ∀ target s, Session.Sound lib s → Resolved lib target s (resolve target s))
    (hs : s.Sound lib) :
    let answer := resolveWith lib resolve path s
    Session.Run lib (fun q => q = path ∨ s.scope lib path q) s answer.2 ∧
      answer.2.inProgress = s.inProgress ∧
      (∀ q ∈ s.inProgress, answer.2.content? q = s.content? q) ∧
      ∀ t, answer.1 = .ok t → ∃ raw targets contents, lib.parse path = .ok raw ∧
        referencedPaths path (located path raw) = .ok targets ∧ contents.map (·.1) = targets ∧
        (∀ e ∈ contents, answer.2.content? e.1 = some e.2) ∧
        assemble path (located path raw) contents = .ok t := by
  have hload : Session.Run lib (fun q => q = path ∨ s.scope lib path q) s
      (s.withCache (lib.load path)).2 := (load_run lib path s).mono fun _ => .inl
  cases hparse : lib.parse path with
  | error e =>
    rw [resolveWith_of_parse_error hs hparse]
    exact ⟨hload, rfl, fun _ _ => rfl, fun _ h => by cases h⟩
  | ok raw =>
    obtain ⟨targets, htargets, -⟩ := referencedPaths_located path raw
    have hrefers : ∀ target ∈ targets, lib.Refers path target := fun target ht =>
      refers_iff.2 ⟨raw, hparse, (mem_referencedPaths htargets).1 ht⟩
    have hall := resolveTargets_run hresolve hrefers (hs.run hload)
    obtain ⟨result, s₂, hanswer⟩ : ∃ result s₂,
        resolveTargets lib resolve path targets (s.withCache (lib.load path)).2 = (result, s₂) :=
      ⟨_, _, rfl⟩
    rw [hanswer] at hall
    rw [resolveWith_of_parse hs hparse htargets hanswer]
    obtain ⟨hrun, hprogress, hkept⟩ := hall
    have hrun₂ := hload.trans (hrun.mono fun q hq => .inr hq)
    have hsame : ∀ q ∈ s.inProgress, s₂.content? q = s.content? q := fun q hq =>
      hrun.content?_of_not fun h => h.2 hq
    cases result with
    | error e => exact ⟨hrun₂, hprogress, hsame, fun _ h => by cases h⟩
    | ok contents =>
      obtain ⟨hmap, hcontents⟩ := hkept contents rfl
      exact ⟨hrun₂, hprogress, hsame, fun t ht =>
        ⟨raw, targets, contents, rfl, htargets, hmap, hcontents, ht⟩⟩

/-- A document that was kept is answered from memory. -/
theorem resolveWithin_of_content? {t : Tree} (h : s.content? path = some t) :
    resolveWithin lib room path s = (.ok t, s) := by
  unfold resolveWithin
  simp only [h]

/-- A document in progress closes a cycle. -/
theorem resolveWithin_of_cycle? {cycle : List DocumentPath} (h : s.content? path = none)
    (hc : s.cycle? path = some cycle) :
    resolveWithin lib room path s = (.error (.referenceCycle cycle), s) := by
  unfold resolveWithin
  simp only [h, hc]

/-- Any other document enters progress, and leaves it again when it fails. -/
theorem resolveWithin_error {e : ComposeError} {s₁ : Session} (h : s.content? path = none)
    (hc : s.cycle? path = none)
    (hanswer : resolveWith lib (resolveWithin lib room) path (s.enter path) = (.error e, s₁)) :
    resolveWithin lib (room + 1) path s = (.error e, s₁.leave) := by
  rw [resolveWithin]
  simp only [h, hc, hanswer]

/-- When it succeeds, it leaves progress and is kept. -/
theorem resolveWithin_ok {t : Tree} {s₁ : Session} (h : s.content? path = none)
    (hc : s.cycle? path = none)
    (hanswer : resolveWith lib (resolveWithin lib room) path (s.enter path) = (.ok t, s₁)) :
    resolveWithin lib (room + 1) path s = (.ok t, s₁.leave.keep path t) := by
  rw [resolveWithin]
  simp only [h, hc, hanswer]

/-- A document that closes no cycle is not in progress. -/
theorem not_mem_inProgress_of_cycle? (h : s.cycle? path = none) : path ∉ s.inProgress :=
  closing?_eq_none_iff.1 h

/-- A document that was kept, or that closes a cycle, changes nothing. -/
theorem resolved_of_known (h : ¬ (s.content? path = none ∧ s.cycle? path = none)) :
    Resolved lib path s (resolveWithin lib room path s) := by
  cases hcontent : s.content? path with
  | some t =>
    rw [resolveWithin_of_content? hcontent]
    exact ⟨.refl, rfl, fun u hu => Except.ok.inj hu ▸ hcontent⟩
  | none =>
    cases hcycle : s.cycle? path with
    | none => exact absurd ⟨hcontent, hcycle⟩ h
    | some cycle =>
      rw [resolveWithin_of_cycle? hcontent hcycle]
      exact ⟨.refl, rfl, fun _ h => by cases h⟩

/-- A resolution is a run. The document itself is kept last, when all its targets are. -/
theorem resolveWithin_run (room : Nat) (path : DocumentPath) (s : Session) (hs : s.Sound lib) :
    Resolved lib path s (resolveWithin lib room path s) := by
  induction room generalizing path s with
  | zero =>
    by_cases hnew : s.content? path = none ∧ s.cycle? path = none
    · rw [resolveWithin]
      simp only [hnew.1, hnew.2]
      exact ⟨.refl, rfl, fun _ h => by cases h⟩
    · exact resolved_of_known hnew
  | succ room ih =>
    by_cases hnew : s.content? path = none ∧ s.cycle? path = none
    · have hp := not_mem_inProgress_of_cycle? hnew.2
      have henter : Session.Run lib (s.scope lib path) s
          (s.enter path) := .single (.turn s _)
      obtain ⟨result, s₁, hanswer⟩ : ∃ result s₁,
          resolveWith lib (resolveWithin lib room) path (s.enter path) = (result, s₁) := ⟨_, _, rfl⟩
      have hall := @resolveWith_run lib _ path _ ih (hs.run henter)
      rw [hanswer] at hall
      obtain ⟨hrun, hprogress, hsame, hassembled⟩ := hall
      have hrun₁ : Session.Run lib (s.scope lib path) (s.enter path) s₁ := by
        refine hrun.mono fun q hq => ?_
        rcases hq with rfl | ⟨hq, hnot⟩
        · exact ⟨.refl, hp⟩
        · exact ⟨hq, fun h => hnot (List.mem_append_left _ h)⟩
      have hleave : s₁.leave.inProgress = s.inProgress := by
        rw [Session.leave, show s₁.inProgress = s.inProgress ++ [path] from hprogress,
          List.dropLast_concat]
      have hrun₂ := (henter.trans hrun₁).tail (.turn s₁ s₁.inProgress.dropLast)
      cases result with
      | error e =>
        rw [resolveWithin_error hnew.1 hnew.2 hanswer]
        exact ⟨hrun₂, hleave, fun _ h => by cases h⟩
      | ok t =>
        rw [resolveWithin_ok hnew.1 hnew.2 hanswer]
        obtain ⟨raw, targets, contents, hparse, htargets, hmap, hkept, htree⟩ := hassembled t rfl
        -- a document in progress is outside the scope of its targets, so it was not kept meanwhile
        have hunkept : s₁.leave.content? path = none :=
          (hsame path (by simp [Session.enter])).trans hnew.1
        refine ⟨hrun₂.tail
          (.keep ⟨.refl, hp⟩ hunkept hparse htargets hmap hkept htree), hleave, fun u hu => ?_⟩
        obtain rfl := Except.ok.inj hu
        simp [Session.content?_keep]
    · exact resolved_of_known hnew

/-- Where resolution and expansion agree on each target, they agree on the targets in turn. -/
theorem resolveTargets_eq_expandTargets {expand : DocumentPath → Except ComposeError Tree}
    {referrer : DocumentPath} {targets : List DocumentPath} {trail : List DocumentPath}
    (hresolve : ∀ target s, Session.Sound lib s → Resolved lib target s (resolve target s))
    (heq : ∀ target ∈ targets, lib.contains target = true →
      ∀ s, Session.Sound lib s → s.inProgress = trail → (resolve target s).1 = expand target)
    (hs : s.Sound lib) (htrail : s.inProgress = trail) :
    (resolveTargets lib resolve referrer targets s).1 =
      lib.expandTargets expand referrer targets := by
  induction targets generalizing s with
  | nil => rfl
  | cons target rest ih =>
    cases hin : lib.contains target with
    | false =>
      rw [resolveTargets_cons_outside hin]
      simp [expandTargets, hin]
    | true =>
      have hfirst := heq target List.mem_cons_self hin s hs htrail
      have hresolved := hresolve target s hs
      obtain ⟨result, s₁, hanswer⟩ : ∃ result s₁, resolve target s = (result, s₁) := ⟨_, _, rfl⟩
      rw [hanswer] at hfirst hresolved
      cases result with
      | error e =>
        rw [resolveTargets_cons_error hin hanswer]
        simp [expandTargets, hin, ← hfirst, bind, Except.bind]
      | ok content =>
        have hrest := ih (fun q hq => heq q (List.mem_cons_of_mem _ hq)) (hs.run hresolved.run)
          (hresolved.inProgress.trans htrail)
        rw [resolveTargets_cons_ok hin hanswer rfl, hrest]
        simp only [expandTargets, hin, if_true, ← hfirst]
        cases lib.expandTargets expand referrer rest <;> rfl

/-- The answer for a document that was kept, or that closes a cycle. What was kept can be inlined,
so it is on no cycle and expands on every trail that leads to it. -/
theorem resolveWithin_eq_of_known (hs : s.Sound lib)
    (htrail : lib.IsTrail room s.inProgress path)
    (h : ¬ (s.content? path = none ∧ s.cycle? path = none)) :
    (resolveWithin lib room path s).1 = lib.expandWithin room s.inProgress path := by
  cases hcontent : s.content? path with
  | some t =>
    obtain ⟨n, hn⟩ := hs.resolved path t hcontent
    rw [resolveWithin_of_content? hcontent, expandWithin_of_inlined htrail hn]
  | none =>
    cases hcycle : s.cycle? path with
    | none => exact absurd ⟨hcontent, hcycle⟩ h
    | some cycle => rw [resolveWithin_of_cycle? hcontent hcycle, expandWithin_of_closing? hcycle]

/-- The answer of a resolution is the one that expansion gives without a memory. -/
theorem resolveWithin_eq_expandWithin (hs : s.Sound lib)
    (htrail : lib.IsTrail room s.inProgress path) :
    (resolveWithin lib room path s).1 = lib.expandWithin room s.inProgress path := by
  induction room generalizing path s with
  | zero =>
    -- without room all documents are on the trail, so this one is known
    refine resolveWithin_eq_of_known hs htrail fun hnew => ?_
    obtain ⟨k, hk⟩ := htrail.exists_room (not_mem_inProgress_of_cycle? hnew.2)
    cases hk
  | succ room ih =>
    by_cases hnew : s.content? path = none ∧ s.cycle? path = none
    · have hp := not_mem_inProgress_of_cycle? hnew.2
      have henter : (s.enter path).Sound lib := ⟨hs.cached, hs.resolved⟩
      have hmatch : (resolveWithin lib (room + 1) path s).1 =
          (resolveWith lib (resolveWithin lib room) path (s.enter path)).1 := by
        obtain ⟨result, s₁, hanswer⟩ : ∃ result s₁,
            resolveWith lib (resolveWithin lib room) path (s.enter path) = (result, s₁) :=
          ⟨_, _, rfl⟩
        cases result with
        | error e => rw [resolveWithin_error hnew.1 hnew.2 hanswer, hanswer]
        | ok t => rw [resolveWithin_ok hnew.1 hnew.2 hanswer, hanswer]
      rw [hmatch, expandWithin_succ hp]
      cases hparse : lib.parse path with
      | error e =>
        rw [resolveWith_of_parse_error henter hparse]
        simp [expandWith, hparse, bind, Except.bind]
      | ok raw =>
        obtain ⟨targets, htargets, -⟩ := referencedPaths_located path raw
        -- the targets share one trail, whatever was kept for the targets before them
        have heq : ∀ target ∈ targets, lib.contains target = true → ∀ s', Session.Sound lib s' →
            s'.inProgress = s.inProgress ++ [path] →
            (resolveWithin lib room target s').1 =
              lib.expandWithin room (s.inProgress ++ [path]) target := by
          intro target ht hin s' hs' hprogress
          have href : lib.Refers path target :=
            refers_iff.2 ⟨raw, hparse, (mem_referencedPaths htargets).1 ht⟩
          rw [← hprogress]
          exact ih hs' (hprogress ▸ htrail.follow hp href hin)
        have hload : ((s.enter path).withCache (lib.load path)).2.Sound lib :=
          henter.run (load_run lib path _)
        obtain ⟨result, s₁, hanswer⟩ : ∃ result s₁,
            resolveTargets lib (resolveWithin lib room) path targets
              ((s.enter path).withCache (lib.load path)).2 = (result, s₁) := ⟨_, _, rfl⟩
        rw [resolveWith_of_parse henter hparse htargets hanswer, expandWith_eq hparse htargets,
          ← resolveTargets_eq_expandTargets (resolveWithin_run room) heq hload rfl, hanswer]
    · exact resolveWithin_eq_of_known hs htrail hnew

end Resolution

end EventSchema
