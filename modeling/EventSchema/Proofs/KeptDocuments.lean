import EventSchema.Proofs.Histories

/-!
# What a session keeps

The documents that a session has kept, told from each other. The memory is filled from below: a
document is kept when everything that it refers to is, and it stays.

* `Session.Complete` — the kept documents are enumerated, each is kept once and refers to kept
  documents only, and its content is its tree with the kept contents in place of the markers, joined
  with what it inherits;
* `Complete.step`, `Complete.run` — no change of a session breaks this, wherever a resolution fails;
* `exists_content?_iff` — a resolution that succeeds keeps all documents that its document reaches,
  and none besides them;
* `resolve_keeps` — both at once, for a session with any history.
-/

namespace EventSchema

open Library

variable {lib : Library} {scope : DocumentPath → Prop} {s s' : Session} {p q : DocumentPath}
  {t : Tree} {contents : List (DocumentPath × Tree)}

/-! ## Contents by text and by path -/

/-- The content under the text of a path is the one under the path. -/
theorem contentAt?_text (contents : List (DocumentPath × Tree)) (q : DocumentPath) :
    contentAt? contents q.text = contents.lookup q := by
  induction contents with
  | nil => rfl
  | cons e rest ih =>
    rw [contentAt?] at ih ⊢
    by_cases he : e.1 = q
    · subst he
      rw [List.findSome?_cons, if_pos rfl, List.lookup_cons, beq_self_eq_true]
    · have htext : e.1.text ≠ q.text := fun h => he (DocumentPath.text_injective h)
      have hne : (q == e.1) = false := beq_eq_false_iff_ne.2 (Ne.symm he)
      rw [List.findSome?_cons, if_neg htext, List.lookup_cons, hne]
      exact ih

/-- Contents that were all kept are found as they were kept. -/
theorem lookup_eq_content? (hkept : ∀ e ∈ contents, s.content? e.1 = some e.2)
    (hq : q ∈ contents.map (·.1)) : contents.lookup q = s.content? q := by
  induction contents with
  | nil => cases hq
  | cons e rest ih =>
    by_cases he : q = e.1
    · subst he
      rw [List.lookup_cons, beq_self_eq_true, hkept e List.mem_cons_self]
    · have hne : (q == e.1) = false := beq_eq_false_iff_ne.2 he
      rw [List.lookup_cons, hne]
      rw [List.map_cons, List.mem_cons] at hq
      exact ih (fun d hd => hkept d (List.mem_cons_of_mem _ hd)) (hq.resolve_left he)

/-! ## Complete memories -/

/-- What a session keeps, told from itself. -/
structure Session.Complete (lib : Library) (s : Session) : Prop where
  /-- each document is kept once -/
  distinct : (s.resolved.map (·.1)).Nodup
  enumerated : ∀ q t, s.content? q = some t → lib.contains q = true
  closed : ∀ q t, s.content? q = some t → ∀ r, lib.Refers q r → ∃ u, s.content? r = some u
  /-- each content is assembled from those that are kept -/
  assembled : ∀ q t, s.content? q = some t → ∃ raw, lib.parse q = .ok raw ∧
    ((located q raw).substitute (contentAt? s.resolved)).inherit = .ok t

/-- What is kept is all that counts. -/
theorem Session.Complete.of_resolved (hs : s.Complete lib) (h : s'.resolved = s.resolved) :
    s'.Complete lib := by
  have hcontent : s'.content? = s.content? := by
    funext q
    rw [Session.content?, h, Session.content?]
  constructor
  · rw [h]
    exact hs.distinct
  · rw [hcontent]
    exact hs.enumerated
  · rw [hcontent]
    exact hs.closed
  · rw [hcontent, h]
    exact hs.assembled

/-- In a session that keeps nothing, nothing is incomplete. -/
theorem Session.Complete.start (lib : Library) (cache : Cache) :
    (Session.start cache).Complete lib := by
  have hnone : ∀ q, (Session.start cache).content? q = none := fun _ => rfl
  constructor
  · exact List.nodup_nil
  all_goals
    intro q t hq
    rw [hnone q] at hq
    cases hq

/-- A document that has no content is none of those that are kept. -/
theorem Session.not_mem_of_content? (h : s.content? p = none) : p ∉ s.resolved.map (·.1) := by
  intro hmem
  obtain ⟨e, he, rfl⟩ := List.mem_map.1 hmem
  simpa using List.lookup_eq_none_iff.1 h e he

/-- No change makes a memory incomplete. -/
theorem Session.Complete.step (hs : s.Complete lib) (h : Session.Step lib scope s s') :
    s'.Complete lib := by
  have hlater : ∀ q t, s.content? q = some t → s'.content? q = some t := fun q t => h.content?
  cases h with
  | load => exact hs.of_resolved rfl
  | turn => exact hs.of_resolved rfl
  | @keep path raw tree targets contents _ hnew hparse htargets hmap hkept htree =>
    -- what the new document refers to was kept before it, as the contents say
    have href : ∀ r, lib.Refers path r → r ∈ contents.map (·.1) := by
      intro r hr
      obtain ⟨raw', hraw', hmem⟩ := refers_iff.1 hr
      obtain rfl := Except.ok.inj (hparse.symm.trans hraw')
      rw [hmap]
      exact (mem_referencedPaths htargets).2 hmem
    have hcontent : ∀ r ∈ contents.map (·.1), ∃ u, s.content? r = some u := by
      intro r hr
      obtain ⟨e, he, rfl⟩ := List.mem_map.1 hr
      exact ⟨e.2, hkept e he⟩
    refine ⟨List.nodup_cons.2 ⟨Session.not_mem_of_content? hnew, hs.distinct⟩, ?_, ?_, ?_⟩
    · intro q t hq
      rw [Session.content?_keep] at hq
      split at hq
      · next hqp => exact hqp ▸ contains_of_parse hparse
      · exact hs.enumerated q t hq
    · intro q t hq r hr
      rw [Session.content?_keep] at hq
      split at hq
      · next hqp =>
        obtain ⟨u, hu⟩ := hcontent r (href r (hqp ▸ hr))
        exact ⟨u, hlater r u hu⟩
      · obtain ⟨u, hu⟩ := hs.closed q t hq r hr
        exact ⟨u, hlater r u hu⟩
    · -- a content that was kept before is found as before, so a tree is assembled in the same way
      have hfound : ∀ {r u}, s.content? r = some u →
          contentAt? (s.keep path tree).resolved r.text = some u := by
        intro r u hu
        rw [contentAt?_text]
        exact hlater r u hu
      intro q t hq
      rw [Session.content?_keep] at hq
      split at hq
      · next hqp =>
        subst hqp
        obtain rfl := Option.some.inj hq
        refine ⟨raw, hparse, ?_⟩
        rw [← assemble_eq_ok_iff.1 htree]
        congr 1
        refine Tree.substitute_congr _ fun r hr => ?_
        obtain ⟨r, -, rfl⟩ := ofText_of_mem_targets hr
        have hr' : r ∈ contents.map (·.1) := hmap ▸ (mem_referencedPaths htargets).2 hr
        obtain ⟨u, hu⟩ := hcontent r hr'
        rw [hfound hu, contentAt?_text, lookup_eq_content? hkept hr', hu]
      · obtain ⟨raw', hraw', ht⟩ := hs.assembled q t hq
        refine ⟨raw', hraw', ?_⟩
        rw [← ht]
        congr 1
        refine Tree.substitute_congr _ fun r hr => ?_
        obtain ⟨r, -, rfl⟩ := ofText_of_mem_targets hr
        obtain ⟨u, hu⟩ := hs.closed q t hq r (refers_iff.2 ⟨raw', hraw', hr⟩)
        rw [hfound hu, contentAt?_text]
        exact hu.symm

/-- No run makes a memory incomplete. -/
theorem Session.Complete.run (hs : s.Complete lib) (h : Session.Run lib scope s s') :
    s'.Complete lib := by
  induction h with
  | refl => exact hs
  | tail _ hstep ih => exact ih.step hstep

/-- Everything that a kept document reaches is kept. -/
theorem Session.Complete.content?_of_reaches (hs : s.Complete lib) (hp : s.content? p = some t)
    (hpq : lib.Reaches p q) : ∃ u, s.content? q = some u := by
  induction hpq with
  | refl => exact ⟨t, hp⟩
  | tail _ href ih =>
    obtain ⟨u, hu⟩ := ih
    exact hs.closed _ u hu _ href

/-! ## Resolutions -/

/-- What a run keeps was kept before or is in its scope. -/
theorem Session.Run.content?_or (h : Session.Run lib scope s s') (hq : s'.content? q = some t) :
    s.content? q = some t ∨ scope q := by
  by_cases hscope : scope q
  · exact .inr hscope
  · rw [h.content?_of_not hscope] at hq
    exact .inl hq

/-- A resolution of a document is a run over the documents that it reaches, and keeps its answer. -/
theorem resolve_run (hs : s.Sound lib) (path : DocumentPath) :
    Session.Run lib (lib.Reaches path) s (lib.resolve path s).2 ∧
      ∀ t, (lib.resolve path s).1 = .ok t → (lib.resolve path s).2.content? path = some t := by
  rw [Library.resolve]
  split
  · have hresolved := resolveWithin_run lib.documents.length path s hs
    exact ⟨hresolved.run.mono fun _ hq => hq.1, hresolved.kept⟩
  · refine ⟨.refl, fun t ht => ?_⟩
    cases ht

/-- A resolution that succeeds keeps the documents that its document reaches, itself included, and
none besides those that were kept before. -/
theorem exists_content?_iff (hs : s.Sound lib) (hc : s.Complete lib)
    (ht : (lib.resolve p s).1 = .ok t) :
    (∃ u, (lib.resolve p s).2.content? q = some u) ↔
      (∃ u, s.content? q = some u) ∨ lib.Reaches p q := by
  obtain ⟨hrun, hkept⟩ := resolve_run hs p
  constructor
  · rintro ⟨u, hu⟩
    rcases hrun.content?_or hu with hbefore | hreach
    · exact .inl ⟨u, hbefore⟩
    · exact .inr hreach
  · rintro (⟨u, hu⟩ | hreach)
    · exact ⟨u, hrun.content? hu⟩
    · exact (hc.run hrun).content?_of_reaches (hkept t ht) hreach

/-! ## Histories -/

/-- No request makes a memory incomplete. -/
theorem Session.Complete.perform (hc : s.Complete lib) (hs : s.AtRest lib) (request : Request) :
    (lib.perform s request).Complete lib := by
  cases request with
  | load => exact hc.of_resolved rfl
  | preload => exact hc.of_resolved rfl
  | directReferences => exact hc.of_resolved rfl
  | resolve path => exact hc.run (resolve_run hs.sound path).1
  | compose => exact .start lib _
  | composeApart => exact hc.of_resolved rfl
  | newComposer => exact .start lib _

/-- After every history the memory is complete. -/
theorem after_complete (lib : Library) (requests : List Request) :
    (lib.after requests).Complete lib := by
  induction requests using List.reverseRecOn with
  | nil => exact .start lib []
  | append_singleton requests request ih =>
    rw [after, List.foldl_append]
    exact ih.perform (after_atRest lib requests) request

/-- What resolutions leave behind. After every history of requests, which may have failed,
* nothing is in progress, and what is kept is complete: it is enumerated, it refers to kept
  documents only, and every content is its tree with the kept contents put in place of the markers,
  joined with what it inherits;
* a further resolution changes and removes nothing that was kept;
* if it succeeds, it keeps its answer, and the documents that it adds are those that its document
  reaches and that were not kept yet;
* if it fails, it may have added some of these, and no others. -/
theorem resolve_keeps (lib : Library) (requests : List Request) (path : DocumentPath) :
    let s := lib.after requests
    let (answer, s') := lib.resolve path s
    s.inProgress = [] ∧ s.Complete lib ∧
      (∀ q t, s.content? q = some t → s'.content? q = some t) ∧
      (∀ t, answer = .ok t → s'.content? path = some t ∧
        ∀ q, (∃ u, s'.content? q = some u) ↔ (∃ u, s.content? q = some u) ∨ lib.Reaches path q) ∧
      ∀ e, answer = .error e →
        ∀ q u, s'.content? q = some u → s.content? q = some u ∨ lib.Reaches path q := by
  intro s
  have hs : s.AtRest lib := after_atRest lib requests
  have hc : s.Complete lib := after_complete lib requests
  obtain ⟨hrun, hkept⟩ := resolve_run hs.sound path
  refine ⟨hs.idle, hc, fun q t hq => hrun.content? hq, fun t ht => ⟨hkept t ht, fun q => ?_⟩, ?_⟩
  · exact exists_content?_iff hs.sound hc ht
  · intro e _ q u hu
    exact hrun.content?_or hu

end EventSchema
