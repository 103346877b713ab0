import EventSchema.Proofs.Cycles
import Mathlib.Logic.Function.Iterate

/-!
# Nested calls

The resolution of a document calls itself for the documents that it refers to, and nothing about
these gets smaller. What ends the calls are the documents in progress: each call puts one more of
the library on their stack, and none is put there twice.

* `resolveLevel` — one call of the resolution, which leaves the calls within it to a given resolver;
* `iterate_resolveLevel` — on a stack with room for so many more documents, so many levels of calls
  and one more are enough, whatever deeper calls would do;
* `Requested`, `Calls` — the calls that a request makes itself, and those within a call;
* `Call.Proper` — what holds at every call: the session is sound, and the stack is a trail;
* `resolution_ends` — so resolutions and compositions end, and calls are never nested deeper than
  there are documents, and one more.
-/

namespace EventSchema

open Library

variable {lib : Library} {resolve resolve' : Resolver} {path referrer target q : DocumentPath}
  {targets trail : List DocumentPath} {s s' : Session} {room : Nat}

/-! ## One level of calls -/

/-- One call of the resolution. The calls within it are left to a resolver. -/
def resolveLevel (lib : Library) (resolve : Resolver) : Resolver := fun path s =>
  match s.content? path with
  | some content => (.ok content, s)
  | none =>
    match s.cycle? path with
    | some cycle => (.error (.referenceCycle cycle), s)
    | none =>
      match resolveWith lib resolve path (s.enter path) with
      | (.error e, s) => (.error e, s.leave)
      | (.ok content, s) => (.ok content, s.leave.keep path content)

/-- With room for one more document there is one more level. -/
theorem resolveWithin_succ (lib : Library) (room : Nat) :
    resolveWithin lib (room + 1) = resolveLevel lib (resolveWithin lib room) := by
  funext path s
  rw [resolveWithin]
  rfl

/-- Where a document is known, no call is made within the call. -/
theorem resolveLevel_of_known (h : ¬ (s.content? path = none ∧ s.cycle? path = none)) :
    resolveLevel lib resolve path s = resolveWithin lib room path s := by
  cases hcontent : s.content? path with
  | some t => simp only [resolveLevel, hcontent, resolveWithin_of_content? hcontent]
  | none =>
    cases hcycle : s.cycle? path with
    | none => exact absurd ⟨hcontent, hcycle⟩ h
    | some cycle =>
      simp only [resolveLevel, hcontent, hcycle, resolveWithin_of_cycle? hcontent hcycle]

/-- Only what is done with the references of a new document depends on the resolver. -/
theorem resolveLevel_congr
    (h : s.content? path = none → s.cycle? path = none →
      resolveWith lib resolve path (s.enter path) = resolveWith lib resolve' path (s.enter path)) :
    resolveLevel lib resolve path s = resolveLevel lib resolve' path s := by
  cases hcontent : s.content? path with
  | some t => simp only [resolveLevel, hcontent]
  | none =>
    cases hcycle : s.cycle? path with
    | some cycle => simp only [resolveLevel, hcontent, hcycle]
    | none => simp only [resolveLevel, hcontent, hcycle, h hcontent hcycle]

/-- Resolvers that agree on each target agree on the targets in turn. -/
theorem resolveTargets_congr (referrer : DocumentPath)
    (hresolve : ∀ target s, Session.Sound lib s → Resolved lib target s (resolve target s))
    (heq : ∀ target ∈ targets, lib.contains target = true → ∀ s, Session.Sound lib s →
      s.inProgress = trail → resolve' target s = resolve target s)
    (hs : s.Sound lib) (htrail : s.inProgress = trail) :
    resolveTargets lib resolve' referrer targets s =
      resolveTargets lib resolve referrer targets s := by
  induction targets generalizing s with
  | nil => rfl
  | cons target rest ih =>
    cases hin : lib.contains target with
    | false => rw [resolveTargets_cons_outside hin, resolveTargets_cons_outside hin]
    | true =>
      have hfirst := heq target List.mem_cons_self hin s hs htrail
      have hresolved := hresolve target s hs
      obtain ⟨result, s₁, hanswer⟩ : ∃ result s₁, resolve target s = (result, s₁) := ⟨_, _, rfl⟩
      rw [hanswer] at hfirst hresolved
      cases result with
      | error e =>
        rw [resolveTargets_cons_error hin hfirst, resolveTargets_cons_error hin hanswer]
      | ok content =>
        have hrest := ih (fun q hq => heq q (List.mem_cons_of_mem _ hq)) (hs.run hresolved.run)
          (hresolved.inProgress.trans htrail)
        rw [resolveTargets_cons_ok hin hfirst rfl, resolveTargets_cons_ok hin hanswer rfl, hrest]

/-- Resolvers that agree on each reference of a document agree on the document. -/
theorem resolveWith_congr
    (hresolve : ∀ target s, Session.Sound lib s → Resolved lib target s (resolve target s))
    (heq : ∀ target, lib.Refers path target → lib.contains target = true → ∀ s',
      Session.Sound lib s' → s'.inProgress = s.inProgress → resolve' target s' = resolve target s')
    (hs : s.Sound lib) : resolveWith lib resolve' path s = resolveWith lib resolve path s := by
  cases hparse : lib.parse path with
  | error e => rw [resolveWith_of_parse_error hs hparse, resolveWith_of_parse_error hs hparse]
  | ok raw =>
    obtain ⟨targets, htargets, -⟩ := referencedPaths_located path raw
    have hload : (s.withCache (lib.load path)).2.Sound lib := hs.run (load_run lib path s)
    have hsame := resolveTargets_congr path hresolve
      (fun target ht hin s' => heq target
        (refers_iff.2 ⟨raw, hparse, (mem_referencedPaths htargets).1 ht⟩) hin s') hload rfl
    rw [resolveWith_of_parse hs hparse htargets rfl, resolveWith_of_parse hs hparse htargets rfl,
      hsame]

/-- More room is enough room. -/
theorem Library.IsTrail.succ (h : lib.IsTrail room trail path) :
    lib.IsTrail (room + 1) trail path :=
  ⟨h.enumerated, h.distinct, h.linked, by have := h.roomy; omega⟩

/-- On a stack with room for so many more documents, so many levels of calls and one more answer
everything: it does not matter what is left for deeper calls. -/
theorem iterate_resolveLevel (deeper : Resolver) (hs : s.Sound lib)
    (htrail : lib.IsTrail room s.inProgress path) :
    (resolveLevel lib)^[room + 1] deeper path s = resolveWithin lib room path s := by
  induction room generalizing path s with
  | zero =>
    -- without room all documents are on the stack, so this one is known
    refine resolveLevel_of_known fun hnew => ?_
    obtain ⟨k, hk⟩ := htrail.exists_room (not_mem_inProgress_of_cycle? hnew.2)
    cases hk
  | succ room ih =>
    rw [Function.iterate_succ_apply', resolveWithin_succ]
    apply resolveLevel_congr
    intro _ hfree
    have hp := not_mem_inProgress_of_cycle? hfree
    have henter : (s.enter path).Sound lib := ⟨hs.cached, hs.resolved⟩
    refine resolveWith_congr (resolveWithin_run room) (fun target href hin s' hs' hprogress => ?_)
      henter
    exact ih hs' (hprogress ▸ htrail.follow hp href hin)

/-- On every stack of a run, resolution is its own level: nothing is cut off by a bound. -/
theorem resolveDocument_eq_level (hs : s.Sound lib)
    (htrail : lib.IsTrail lib.documents.length s.inProgress path) :
    lib.resolveDocument path s = resolveLevel lib lib.resolveDocument path s := by
  have h := iterate_resolveLevel (resolveWithin lib 0) hs htrail
  have hiterate : ∀ n, (resolveLevel lib)^[n] (resolveWithin lib 0) = resolveWithin lib n := by
    intro n
    induction n with
    | zero => rfl
    | succ n ih => rw [Function.iterate_succ_apply', ih, resolveWithin_succ]
  rw [hiterate, resolveWithin_succ] at h
  exact h.symm

/-! ## The calls of a run -/

/-- A call of the resolution: a document, and the session in which it is resolved. -/
abbrev Call := DocumentPath × Session

/-- Going through some targets from a session on, a resolver is called for a target in a session. -/
inductive TargetCalled (lib : Library) (resolve : Resolver) :
    List DocumentPath → Session → Call → Prop
  | first {target : DocumentPath} {rest : List DocumentPath} {s : Session}
      (hin : lib.contains target = true) : TargetCalled lib resolve (target :: rest) s (target, s)
  | later {target : DocumentPath} {rest : List DocumentPath} {s s' : Session} {content : Tree}
      {call : Call} (hin : lib.contains target = true)
      (hfirst : resolve target s = (.ok content, s')) (h : TargetCalled lib resolve rest s' call) :
      TargetCalled lib resolve (target :: rest) s call

/-- A call makes another one: its document is new, and has been loaded, and is not refused at the
references before the one that is called for. -/
inductive Calls (lib : Library) : Call → Call → Prop
  | mk {path : DocumentPath} {s s' : Session} {raw : Tree} {targets : List DocumentPath}
      {call : Call} (hnew : s.content? path = none) (hfree : s.cycle? path = none)
      (hload : (s.enter path).withCache (lib.load path) = (.ok raw, s'))
      (htargets : referencedPaths path (located path raw) = .ok targets)
      (hcalled : TargetCalled lib lib.resolveDocument targets s' call) :
      Calls lib (path, s) call

/-- The calls that a request makes itself, after other requests: a resolution makes one, and a
composition makes one for each document, up to the first that fails. -/
inductive Requested (lib : Library) (requests : List Request) : Call → Prop
  | resolve {path : DocumentPath} (hin : lib.contains path = true) :
      Requested lib requests (path, lib.after requests)
  | compose {path : DocumentPath} {front rest : List DocumentPath} {catalog : Catalog} {s : Session}
      (hdocuments : lib.documents = front ++ path :: rest)
      (hfront : composeFrom lib.resolveDocument front .empty (lib.after requests) =
        (.ok catalog, s)) :
      Requested lib requests (path, s)

/-- The calls of a run, each one with the calls around it, the outermost first. -/
inductive Nested (lib : Library) (requests : List Request) : List Call → Call → Prop
  | requested {call : Call} (h : Requested lib requests call) : Nested lib requests [] call
  | within {outer : List Call} {call next : Call} (h : Nested lib requests outer call)
      (hcalls : Calls lib call next) : Nested lib requests (outer ++ [call]) next

/-- What every call of a run starts from. -/
structure Call.Proper (lib : Library) (call : Call) : Prop where
  sound : call.2.Sound lib
  trail : lib.IsTrail lib.documents.length call.2.inProgress call.1

variable {requests : List Request} {call next : Call}

/-- A request makes its calls with nothing in progress. -/
theorem proper_of_requested (h : Requested lib requests call) :
    call.Proper lib ∧ call.2.inProgress = [] := by
  have hrest := after_atRest lib requests
  cases h with
  | resolve hin => exact ⟨⟨hrest.sound, hrest.idle ▸ IsTrail.start hin⟩, hrest.idle⟩
  | @compose path front rest catalog s hdocuments hfront =>
    have hin : ∀ document ∈ lib.documents, lib.contains document = true := fun _ => contains_iff.2
    rw [hdocuments] at hin
    obtain ⟨-, hfrontRest⟩ := @composeFrom_eq lib _ front .empty
      (fun document hd => hin document (List.mem_append_left _ hd)) hrest
    rw [hfront] at hfrontRest
    have htrail := IsTrail.start (hin path (by simp))
    exact ⟨⟨hfrontRest.sound, hfrontRest.idle.symm ▸ htrail⟩, hfrontRest.idle⟩

/-- A resolution is a run that leaves the same documents in progress. -/
theorem resolveDocument_resolved (hs : s.Sound lib) (path : DocumentPath) :
    Resolved lib path s (lib.resolveDocument path s) :=
  resolveWithin_run lib.documents.length path s hs

/-- Going through targets, each of them is called for in a sound session with the same stack. -/
theorem sound_of_targetCalled (h : TargetCalled lib lib.resolveDocument targets s call)
    (hs : s.Sound lib) :
    call.1 ∈ targets ∧ lib.contains call.1 = true ∧ call.2.Sound lib ∧
      call.2.inProgress = s.inProgress := by
  induction h with
  | first hin => exact ⟨List.mem_cons_self, hin, hs, rfl⟩
  | @later target _ _ _ _ _ _ hfirst _ ih =>
    have hresolved := resolveDocument_resolved hs target
    rw [hfirst] at hresolved
    obtain ⟨hmem, hin, hsound, hprogress⟩ := ih (hs.run hresolved.run)
    exact ⟨List.mem_cons_of_mem _ hmem, hin, hsound, hprogress.trans hresolved.inProgress⟩

/-- A call within a call starts with the document of the outer one on top of the stack. -/
theorem Call.Proper.calls (h : call.Proper lib) (hcalls : Calls lib call next) :
    next.Proper lib ∧ next.2.inProgress = call.2.inProgress ++ [call.1] := by
  cases hcalls with
  | @mk path s s' raw targets next hnew hfree hload htargets hcalled =>
    have henter : (s.enter path).Sound lib := ⟨h.sound.cached, h.sound.resolved⟩
    have hparse : lib.parse path = .ok raw := by
      rw [← withCache_load_eq henter, hload]
    have hs' : s'.Sound lib := by
      have hrun := henter.run (load_run lib path _)
      rwa [hload] at hrun
    have hprogress : s'.inProgress = s.inProgress ++ [path] := by
      have hsession : ((s.enter path).withCache (lib.load path)).2 = s' := by rw [hload]
      rw [← hsession]
      rfl
    obtain ⟨hmem, hin, hsound, hsame⟩ := sound_of_targetCalled hcalled hs'
    have href : lib.Refers path next.1 :=
      refers_iff.2 ⟨raw, hparse, (mem_referencedPaths htargets).1 hmem⟩
    have hstack := hsame.trans hprogress
    refine ⟨⟨hsound, hstack ▸ ?_⟩, hstack⟩
    exact h.trail.succ.follow (not_mem_inProgress_of_cycle? hfree) href hin

/-- At every call of a run the session is sound, and the stack holds the documents of the outer
calls. -/
theorem proper_of_nested {outer : List Call} (h : Nested lib requests outer call) :
    call.Proper lib ∧ call.2.inProgress = outer.map (·.1) := by
  induction h with
  | requested h => exact proper_of_requested h
  | within _ hcalls ih =>
    obtain ⟨hproper, hstack⟩ := ih
    obtain ⟨hnext, hpushed⟩ := hproper.calls hcalls
    refine ⟨hnext, ?_⟩
    rw [hpushed, hstack, List.map_append]
    rfl

/-! ## Stacks -/

/-- The documents in progress at some moment: they are enumerated and pairwise different, and each
one is referred to by the one below it. -/
structure Library.IsStack (lib : Library) (stack : List DocumentPath) : Prop where
  enumerated : ∀ q ∈ stack, lib.contains q = true
  distinct : stack.Nodup
  linked : stack.IsChain lib.Refers

/-- A trail is a stack. -/
theorem Library.IsTrail.isStack (h : lib.IsTrail room trail path) : lib.IsStack trail :=
  ⟨fun q hq => h.enumerated q (List.mem_append_left _ hq), h.distinct, h.linked.left_of_append⟩

/-- A document that is not on a trail makes it a longer stack. -/
theorem Library.IsTrail.isStack_append (h : lib.IsTrail room trail path) (hp : path ∉ trail) :
    lib.IsStack (trail ++ [path]) :=
  ⟨h.enumerated, distinct_append h.distinct hp, h.linked⟩

/-- No stack is higher than there are documents. -/
theorem Library.IsStack.length_le (h : lib.IsStack trail) :
    trail.length ≤ lib.documents.length :=
  h.distinct.length_le_of_subset fun q hq => contains_iff.1 (h.enumerated q hq)

/-! ## Requests -/

/-- Enough levels of calls answer a resolution at rest. -/
theorem iterate_resolveLevel_of_atRest (deeper : Resolver) (hs : s.AtRest lib)
    (hin : lib.contains path = true) :
    (resolveLevel lib)^[lib.documents.length + 1] deeper path s = lib.resolveDocument path s :=
  iterate_resolveLevel deeper hs.sound (hs.idle ▸ IsTrail.start hin)

/-- Resolvers that agree at rest compose the same documents to the same catalog. -/
theorem composeFrom_congr {documents : List DocumentPath} (catalog : Catalog)
    (heq : ∀ document ∈ documents, ∀ s, Session.AtRest lib s →
      resolve document s = lib.resolveDocument document s) (hs : s.AtRest lib) :
    composeFrom resolve documents catalog s =
      composeFrom lib.resolveDocument documents catalog s := by
  induction documents generalizing catalog s with
  | nil => rfl
  | cons document rest ih =>
    have hrest := hs.resolveDocument document
    rw [composeFrom, composeFrom, heq document List.mem_cons_self s hs]
    obtain ⟨result, s₁, hanswer⟩ :
        ∃ result s₁, lib.resolveDocument document s = (result, s₁) := ⟨_, _, rfl⟩
    rw [hanswer] at hrest ⊢
    cases result with
    | error e => rfl
    | ok schema =>
      dsimp only
      cases catalog.enter document schema with
      | error e => rfl
      | ok entered => exact ih entered (fun d hd => heq d (List.mem_cons_of_mem _ hd)) hrest

/-- Resolution ends, however the documents refer to each other. After every history of requests,
* a resolution and a composition are answered by as many levels of calls as there are documents, and
  one more: whatever deeper calls would do, they are not made;
* at every call of either, the stack holds the documents of the outer calls. They are enumerated and
  pairwise different, and each one refers to the next. So the calls are never nested deeper than
  that, and what is put on the stack makes it a stack again;
* the call is answered from the calls within it by the rule for one level, which knows no bound. -/
theorem resolution_ends (lib : Library) (requests : List Request) :
    let s := lib.after requests
    (∀ deeper : Resolver,
      let resolve := (resolveLevel lib)^[lib.documents.length + 1] deeper
      (∀ path, (if lib.contains path then resolve path s else (.error (.notEnumerated path), s)) =
          lib.resolve path s) ∧
        composeFrom resolve lib.documents .empty s = lib.compose s) ∧
      ∀ outer path s', Nested lib requests outer (path, s') →
        s'.inProgress = outer.map (·.1) ∧ lib.IsStack s'.inProgress ∧
          (s'.inProgress ++ [path]).IsChain lib.Refers ∧
          (s'.cycle? path = none → lib.IsStack (s'.inProgress ++ [path])) ∧
          outer.length + 1 ≤ lib.documents.length + 1 ∧
          lib.resolveDocument path s' = resolveLevel lib lib.resolveDocument path s' := by
  intro s
  have hs : s.AtRest lib := after_atRest lib requests
  refine ⟨fun deeper => ⟨fun path => ?_, ?_⟩, fun outer path s' h => ?_⟩
  · rw [Library.resolve]
    split
    · next hin => exact iterate_resolveLevel_of_atRest deeper hs hin
    · rfl
  · exact composeFrom_congr .empty
      (fun document hd s' hs' => iterate_resolveLevel_of_atRest deeper hs' (contains_iff.2 hd)) hs
  · obtain ⟨hproper, hstack⟩ := proper_of_nested h
    have hlength := hproper.trail.isStack.length_le
    rw [hstack, List.length_map] at hlength
    refine ⟨hstack, hproper.trail.isStack, hproper.trail.linked, fun hfree => ?_, by omega, ?_⟩
    · exact hproper.trail.isStack_append (not_mem_inProgress_of_cycle? hfree)
    · exact resolveDocument_eq_level hproper.sound hproper.trail

/-! ## The deepest calls -/

/-- The call for the first reference of a new document. -/
theorem calls_of_directReferences (path target : DocumentPath) (rest : List DocumentPath)
    (hs : s.Sound lib) (hnew : s.content? path = none) (hfree : s.cycle? path = none)
    (htargets : (lib.directReferences path []).1.toOption = some (target :: rest))
    (hin : lib.contains target = true) :
    Calls lib (path, s) (target, ((s.enter path).withCache (lib.load path)).2) := by
  rw [toOption_eq_some_iff, directReferences, load] at htargets
  cases hparse : lib.parse path with
  | error e => simp [hparse] at htargets
  | ok raw =>
    simp only [List.lookup_nil, hparse] at htargets
    have henter : (s.enter path).Sound lib := ⟨hs.cached, hs.resolved⟩
    have hload := (withCache_load_eq henter path).trans hparse
    exact .mk hnew hfree (Prod.ext hload rfl) htargets (.first hin)

/-- Where two documents refer to each other, three calls are nested: the third one finds the cycle
on a stack of both. -/
theorem TwoDocuments.nested_loop :
    ∃ outer path s, Nested loop [] outer (path, s) ∧ loop.IsStack s.inProgress ∧
      outer.length + 1 = loop.documents.length + 1 := by
  have hstart : Nested loop [] [] (first, loop.after []) :=
    .requested (.resolve (by decide +kernel))
  have hthere := calls_of_directReferences first second []
    (proper_of_nested hstart).1.sound rfl rfl (by decide +kernel) (by decide +kernel)
  have hinner := hstart.within hthere
  have hback := calls_of_directReferences second first []
    (proper_of_nested hinner).1.sound rfl (by decide +kernel) (by decide +kernel)
    (by decide +kernel)
  have hdeepest := hinner.within hback
  obtain ⟨-, hstack, -⟩ := (resolution_ends loop []).2 _ _ _ hdeepest
  exact ⟨_, _, _, hdeepest, hstack, by decide +kernel⟩

end EventSchema
