import EventSchema.Proofs.KeptDocuments
import EventSchema.Proofs.SelfContained

/-!
# References are keys

A reference that was read from the directory of a document is the text of exactly one document path,
so that contents under document paths are found by the references as they are written.

* `Within.mem_targets` — the target of every marker of a tree is among the targets of the tree;
* `keys_of_resolveTargets` — the contents of targets stand under these targets;
* `findsAll_of_resolveTargets` — so every marker of a located tree finds its content;
* `SparesReferences` — a result that does not report a reference which names no path; loading, each
  level of a resolution (`resolveWith_sparesReferences`), and so resolutions and compositions have
  such results;
* `references_are_keys` — all of this for one document.
-/

namespace EventSchema

open Library

variable {lib : Library} {resolve : Resolver} {p q : DocumentPath} {s s' : Session} {t u : Tree}
  {r : String} {targets : List DocumentPath} {contents : List (DocumentPath × Tree)}

/-! ## Markers and their contents -/

/-- The target of a marker is among the targets of every tree that it stands in. -/
theorem Tree.Within.mem_targets (h : u.Within t) (hr : u.target? = some r) : r ∈ t.targets := by
  induction h with
  | self => exact Tree.mem_targets_of_target? hr
  | item hu _ ih => exact Tree.mem_itemTargets.2 ⟨_, hu, ih⟩
  | field he _ ih => exact Tree.mem_fieldTargets.2 ⟨_, he, .inr ih⟩

/-- Every marker of a tree finds an entry by its target as it is written: the entry of the path that
has this text. -/
def Tree.FindsAll (t : Tree) (contents : List (DocumentPath × Tree)) : Prop :=
  ∀ (marker : Tree) (r : String), marker.Within t → marker.target? = some r →
    ∃ q content, q.text = r ∧ (q, content) ∈ contents ∧ contentAt? contents r = some content

/-- The contents of targets stand under these targets, in the same order. -/
theorem keys_of_resolveTargets
    (h : (resolveTargets lib resolve p targets s).1 = .ok contents) :
    contents.map (·.1) = targets := by
  induction targets generalizing s contents with
  | nil =>
    obtain rfl := Except.ok.inj h
    rfl
  | cons target rest ih =>
    cases hin : lib.contains target with
    | false =>
      rw [resolveTargets_cons_outside hin] at h
      cases h
    | true =>
      obtain ⟨answer, s₁, hfirst⟩ : ∃ answer s₁, resolve target s = (answer, s₁) := ⟨_, _, rfl⟩
      cases answer with
      | error e =>
        rw [resolveTargets_cons_error hin hfirst] at h
        cases h
      | ok content =>
        rw [resolveTargets_cons_ok hin hfirst rfl] at h
        cases hmore : (resolveTargets lib resolve p rest s₁).1 with
        | error e =>
          rw [hmore] at h
          cases h
        | ok more =>
          rw [hmore] at h
          obtain rfl := Except.ok.inj h
          rw [List.map_cons, ih hmore]

/-- A path that has a content is found by its text. -/
theorem exists_contentAt? (hq : q ∈ contents.map (·.1)) :
    ∃ content, (q, content) ∈ contents ∧ contentAt? contents q.text = some content := by
  obtain ⟨e, he, rfl⟩ := List.mem_map.1 hq
  rw [contentAt?_text]
  cases hlookup : contents.lookup e.1 with
  | none =>
    have hne := List.lookup_eq_none_iff.1 hlookup e he
    rw [bne_self_eq_false] at hne
    cases hne
  | some content =>
    obtain ⟨before, after, hsplit, -⟩ := List.lookup_eq_some_iff.1 hlookup
    exact ⟨content, hsplit ▸ by simp, rfl⟩

/-- Once its targets are resolved, every marker of a located tree finds its content. -/
theorem findsAll_of_resolveTargets (htargets : referencedPaths p (located p t) = .ok targets)
    (h : (resolveTargets lib resolve p targets s).1 = .ok contents) :
    (located p t).FindsAll contents := by
  intro marker r hmarker hr
  have hmem := hmarker.mem_targets hr
  obtain ⟨q, -, rfl⟩ := ofText_of_mem_targets hmem
  have hq : q ∈ contents.map (·.1) :=
    keys_of_resolveTargets h ▸ (mem_referencedPaths htargets).2 hmem
  obtain ⟨content, hcontent, hfound⟩ := exists_contentAt? hq
  exact ⟨q, content, rfl, hcontent, hfound⟩

/-! ## References that name no path -/

/-- A result other than the report of a reference that names no path. -/
def SparesReferences {α : Type} (result : Except ComposeError α) : Prop :=
  ∀ referrer reference cause, result ≠ .error (.invalidReference referrer reference cause)

namespace SparesReferences

variable {α β : Type} {e : ComposeError}

/-- A success is no report. -/
theorem ok (a : α) : SparesReferences (.ok a) := by
  rintro _ _ _ ⟨⟩

/-- An error is the same report for whatever result it stands. -/
theorem error (h : SparesReferences (.error e : Except ComposeError α)) :
    SparesReferences (.error e : Except ComposeError β) := fun _ _ _ heq =>
  h _ _ _ (congrArg _ (Except.error.inj heq))

/-- Nothing is reported by a step that follows a step, if neither of them reports it. -/
theorem bind {result : Except ComposeError α} {next : α → Except ComposeError β}
    (h : SparesReferences result) (hnext : ∀ a, SparesReferences (next a)) :
    SparesReferences (result.bind next) := by
  cases result with
  | error e => exact h.error
  | ok a => exact hnext a

/-- Nor by a step whose result is put into another form. -/
theorem map {result : Except ComposeError α} (h : SparesReferences result) (f : α → β) :
    SparesReferences (result.map f) := by
  cases result with
  | error e => exact h.error
  | ok a => exact ok (f a)

end SparesReferences

/-- Loading does not look at references. -/
theorem load_sparesReferences (lib : Library) (p : DocumentPath) (cache : Cache) :
    SparesReferences (lib.load p cache).1 := by
  intro referrer reference cause herror
  rw [load] at herror
  split at herror
  · cases herror
  · rw [parse] at herror
    cases hin : lib.contains p with
    | false => simp [hin] at herror
    | true =>
      cases hsource : lib.source p with
      | error reason => simp [hin, hsource] at herror
      | ok text =>
        cases hparse : Markup.parse (format p) text <;>
          simp [hin, hsource, hparse, Except.mapError] at herror

/-- The references of a located tree all name paths. -/
theorem directReferences_sparesReferences (cache : Cache) :
    SparesReferences (lib.directReferences p cache).1 := by
  have hload := load_sparesReferences lib p cache
  rw [directReferences]
  split
  · next e cache' hanswer =>
    rw [hanswer] at hload
    exact hload.error
  · next raw cache' hanswer =>
    obtain ⟨targets, htargets, -⟩ := referencedPaths_located p raw
    rw [htargets]
    exact .ok targets

/-- Targets are paths already. -/
theorem resolveTargets_sparesReferences (h : ∀ q s, SparesReferences (resolve q s).1) :
    SparesReferences (resolveTargets lib resolve p targets s).1 := by
  induction targets generalizing s with
  | nil => exact .ok []
  | cons target rest ih =>
    cases hin : lib.contains target with
    | false =>
      rw [resolveTargets_cons_outside hin]
      rintro _ _ _ ⟨⟩
    | true =>
      have htarget := h target s
      obtain ⟨answer, s₁, hfirst⟩ : ∃ answer s₁, resolve target s = (answer, s₁) := ⟨_, _, rfl⟩
      rw [hfirst] at htarget
      cases answer with
      | error e =>
        rw [resolveTargets_cons_error hin hfirst]
        exact htarget.error
      | ok content =>
        rw [resolveTargets_cons_ok hin hfirst rfl]
        exact ih.map _

/-- A document that was loaded is assembled from the contents of its targets. -/
theorem resolveWith_of_load (hload : (lib.load p s.cache).1 = .ok t)
    (htargets : referencedPaths p (located p t) = .ok targets) :
    (resolveWith lib resolve p s).1 =
      (resolveTargets lib resolve p targets (s.withCache (lib.load p)).2).1.bind
        (assemble p (located p t)) := by
  have hanswer : s.withCache (lib.load p) = (.ok t, (s.withCache (lib.load p)).2) :=
    Prod.ext hload rfl
  obtain ⟨answer, s₁, hall⟩ : ∃ answer s₁,
    resolveTargets lib resolve p targets (s.withCache (lib.load p)).2 = (answer, s₁) := ⟨_, _, rfl⟩
  rw [resolveWith, hanswer]
  cases answer <;> simp [htargets, hall, Except.bind]

/-- One level of a resolution reports no reference if the next level does not. -/
theorem resolveWith_sparesReferences (h : ∀ q s, SparesReferences (resolve q s).1) :
    SparesReferences (resolveWith lib resolve p s).1 := by
  have hfirst := load_sparesReferences lib p s.cache
  cases hload : (lib.load p s.cache).1 with
  | error e =>
    have hanswer : s.withCache (lib.load p) = (.error e, (s.withCache (lib.load p)).2) :=
      Prod.ext hload rfl
    rw [hload] at hfirst
    rw [resolveWith, hanswer]
    exact hfirst.error
  | ok raw =>
    obtain ⟨targets, htargets, -⟩ := referencedPaths_located p raw
    rw [resolveWith_of_load hload htargets]
    refine (resolveTargets_sparesReferences h).bind fun contents _ _ _ herror => ?_
    obtain ⟨fault, hfault⟩ := invalidExtends_of_assemble herror
    cases hfault

/-- So no resolution does, however many documents may be in progress. -/
theorem resolveWithin_sparesReferences (room : Nat) (p : DocumentPath) (s : Session) :
    SparesReferences (resolveWithin lib room p s).1 := by
  induction room generalizing p s with
  | zero =>
    unfold resolveWithin
    split
    · exact .ok _
    · split <;> rintro _ _ _ ⟨⟩
  | succ room ih =>
    have hlevel : SparesReferences (resolveWith lib (resolveWithin lib room) p (s.enter p)).1 :=
      resolveWith_sparesReferences ih
    rw [resolveWithin]
    split
    · exact .ok _
    · split
      · rintro _ _ _ ⟨⟩
      · split
        · next e s₁ hanswer =>
          rw [hanswer] at hlevel
          exact hlevel.error
        · exact .ok _

/-- Nor does the resolution of a document of a library. -/
theorem resolve_sparesReferences (p : DocumentPath) (s : Session) :
    SparesReferences (lib.resolve p s).1 := by
  rw [Library.resolve]
  split
  · exact resolveWithin_sparesReferences _ p s
  · rintro _ _ _ ⟨⟩

/-- A document that is entered into a catalog has been resolved before. -/
theorem enter_sparesReferences (catalog : Catalog) (p : DocumentPath) (t : Tree) :
    SparesReferences (catalog.enter p t) := by
  rcases catalog.enter_cases p t with
    ⟨-, hentered⟩ | ⟨_, _, -, -, hentered⟩ | ⟨_, -, -, hentered⟩
  all_goals
    rw [hentered]
    rintro _ _ _ ⟨⟩

/-- Documents are resolved and entered in turn. -/
theorem composeFrom_sparesReferences (documents : List DocumentPath) (catalog : Catalog) :
    SparesReferences (composeFrom lib.resolveDocument documents catalog s).1 := by
  induction documents generalizing catalog s with
  | nil => exact .ok catalog
  | cons document rest ih =>
    have hfirst : SparesReferences (lib.resolveDocument document s).1 :=
      resolveWithin_sparesReferences _ document s
    rw [composeFrom]
    split
    · next e s₁ hanswer =>
      rw [hanswer] at hfirst
      exact hfirst.error
    · next schema s₁ hanswer =>
      have henter := enter_sparesReferences catalog document schema
      split
      · next e herror =>
        rw [herror] at henter
        exact henter
      · exact ih _

/-! ## All references of a document -/

/-- Every reference that is read from the directory of a document spells a document path, and is the
text of that path, so that no two references spell the same one. While the document is resolved, by
whatever way its targets are resolved, every marker of its tree finds a content by its reference as
it is written, under the path that the reference spells. And no request of a composer, whatever its
session remembers, reports a reference that names no path. -/
theorem references_are_keys (p : DocumentPath) (t : Tree) :
    (∀ r ∈ (t.resolveReferences p.parent).references,
      ∃ q, DocumentPath.ofText r = .ok q ∧ q.text = r) ∧
    (∀ r ∈ (t.resolveReferences p.parent).references,
      ∀ r' ∈ (t.resolveReferences p.parent).references,
        DocumentPath.ofText r = DocumentPath.ofText r' → r = r') ∧
    (∃ targets, referencedPaths p (t.resolveReferences p.parent) = .ok targets ∧
      targets.map DocumentPath.text = (t.resolveReferences p.parent).references ∧
      ∀ (lib : Library) (resolve : Resolver) (s : Session), (lib.load p s.cache).1 = .ok t →
        (resolveWith lib resolve p s).1 =
          (resolveTargets lib resolve p targets (s.withCache (lib.load p)).2).1.bind
            (assemble p (t.resolveReferences p.parent)) ∧
        ∀ contents,
          (resolveTargets lib resolve p targets (s.withCache (lib.load p)).2).1 = .ok contents →
            (t.resolveReferences p.parent).FindsAll contents) ∧
    ∀ (lib : Library) (s : Session) (q referrer : DocumentPath) (reference : String)
      (cause : PathError),
      (lib.resolve q s).1 ≠ .error (.invalidReference referrer reference cause) ∧
      (lib.directReferences q s.cache).1 ≠ .error (.invalidReference referrer reference cause) ∧
      (lib.compose s).1 ≠ .error (.invalidReference referrer reference cause) := by
  have hspells : ∀ r ∈ (t.resolveReferences p.parent).references,
      ∃ q, DocumentPath.ofText r = .ok q ∧ q.text = r :=
    fun r hr => ofText_of_mem_targets (Tree.mem_references.1 hr)
  refine ⟨hspells, fun r hr r' hr' hsame => ?_, ?_, fun lib s q referrer reference cause => ?_⟩
  · obtain ⟨q, hq, rfl⟩ := hspells r hr
    obtain ⟨q', hq', rfl⟩ := hspells r' hr'
    rw [Except.ok.inj (hq.symm.trans (hsame.trans hq'))]
  · obtain ⟨targets, htargets, hmap⟩ := referencedPaths_located p t
    refine ⟨targets, htargets, hmap, fun lib resolve s hload => ⟨?_, ?_⟩⟩
    · exact resolveWith_of_load hload htargets
    · exact fun contents hcontents => findsAll_of_resolveTargets htargets hcontents
  · exact ⟨resolve_sparesReferences q s _ _ _, directReferences_sparesReferences s.cache _ _ _,
      composeFrom_sparesReferences lib.documents .empty _ _ _⟩

/-- A document whose references are spelled in unusual ways. -/
def scatteredPath : DocumentPath := ⟨["s".toList, "Scattered.json".toList], by decide⟩

/-- Its tree: a marker, and another one among its siblings. -/
def scatteredTree : Tree :=
  .map [("$ref", .str "..//./Kind.json"), ("more", .seq [.map [("$ref", .str "/../../é.json")]])]

/-- The library of this document and the two that it refers to. -/
def scatteredLibrary : Library :=
  .ofTexts [(scatteredPath,
      "\x7b\"$ref\":\"..//./Kind.json\",\"more\":[\x7b\"$ref\":\"/../../é.json\"\x7d]\x7d"),
    (⟨["Kind.json".toList], by decide⟩, "\x7b\"title\":\"Kind\"\x7d"),
    (⟨["é.json".toList], by decide⟩, "[]")]

/-- Both references are found by their texts, one of which has more parents than there are. -/
theorem references_of_scatteredTree :
    (scatteredLibrary.load scatteredPath []).1 = .ok scatteredTree ∧
      "/é.json" ∈ (scatteredTree.resolveReferences scatteredPath.parent).references ∧
      (∃ q, DocumentPath.ofText "/é.json" = .ok q ∧ q.text = "/é.json") ∧
      (scatteredTree.resolveReferences scatteredPath.parent).FindsAll
        [(⟨["Kind.json".toList], by decide⟩, .map [("title", .str "Kind")]),
          (⟨["é.json".toList], by decide⟩, .seq [])] := by
  have hload : (scatteredLibrary.load scatteredPath []).1 = .ok scatteredTree :=
    toOption_eq_some_iff.1 (by decide +kernel)
  have hmem : "/é.json" ∈ (scatteredTree.resolveReferences scatteredPath.parent).references := by
    decide +kernel
  obtain ⟨hspells, -, ⟨targets, htargets, -, hfinds⟩, -⟩ :=
    references_are_keys scatteredPath scatteredTree
  refine ⟨hload, hmem, hspells _ hmem, ?_⟩
  have hfound :
      referencedPaths scatteredPath (scatteredTree.resolveReferences scatteredPath.parent) =
        .ok [⟨["Kind.json".toList], by decide⟩, ⟨["é.json".toList], by decide⟩] :=
    toOption_eq_some_iff.1 (by decide +kernel)
  obtain rfl := Except.ok.inj (hfound.symm.trans htargets)
  refine (hfinds scatteredLibrary scatteredLibrary.resolveDocument (.start []) hload).2 _ ?_
  exact toOption_eq_some_iff.1 (by decide +kernel)

end EventSchema
