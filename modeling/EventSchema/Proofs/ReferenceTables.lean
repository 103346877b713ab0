import EventSchema.Proofs.Catalogs
import EventSchema.Proofs.Cycles
import EventSchema.ReferenceTable

/-!
# Tables of references

A table is made by a look at each document alone. A composition follows the references from document
to document, remembers what it has seen and ends at its first failure. Both mean the same
references.

* `ReferenceTable.Shows` — a table has a row for each document, with all documents it refers to;
* `referenceRows_shows` — the table of documents that can be parsed, whatever was cached before;
* `mem_dangling_iff` — a reference is dangling if its document is not in the library;
* `refers_of_rejects` — a missing reference that a composition reports is there;
* `compose_agrees_with_table` — so the table tells beforehand what a composition will report.
-/

namespace EventSchema

/-- A table has a row for each of some documents, with the documents that it refers to. -/
structure ReferenceTable.Shows (table : ReferenceTable) (lib : Library)
    (documents : List DocumentPath) : Prop where
  documents : table.map (·.1) = documents
  targets : ∀ row ∈ table, ∀ q, q ∈ row.2 ↔ lib.Refers row.1 q

namespace Library

variable {lib : Library} {cache : Cache} {p q referrer target : DocumentPath} {raw : Tree}
  {documents : List DocumentPath} {table : ReferenceTable} {trail : List DocumentPath}
  {e : ComposeError}

/-! ## Rows -/

/-- The direct references of a document that can be parsed are those that it refers to, whatever was
cached before. -/
theorem directReferences_eq_ok (hc : cache.Sound lib) (hparse : lib.parse p = .ok raw) :
    ∃ targets, (lib.directReferences p cache).1 = .ok targets ∧
      ∀ q, q ∈ targets ↔ lib.Refers p q := by
  obtain ⟨targets, htargets, -⟩ := referencedPaths_located p raw
  have hload : (lib.load p cache).1 = .ok raw := (load_eq_parse hc p).trans hparse
  refine ⟨targets, ?_, fun q => ?_⟩
  · rw [directReferences]
    split
    · next h => rw [h] at hload; cases hload
    · next h =>
      rw [h] at hload
      obtain rfl := Except.ok.inj hload
      exact htargets
  · rw [mem_referencedPaths htargets, refers_iff]
    constructor
    · intro hq
      exact ⟨raw, hparse, hq⟩
    · rintro ⟨raw', hraw', hq⟩
      obtain rfl := Except.ok.inj (hparse.symm.trans hraw')
      exact hq

/-- Documents that can be parsed have rows, whatever was cached before. -/
theorem referenceRows_shows (hc : cache.Sound lib)
    (hparse : ∀ p ∈ documents, ∃ raw, lib.parse p = .ok raw) :
    ∃ table, (lib.referenceRows documents cache).1 = .ok table ∧ table.Shows lib documents := by
  induction documents generalizing cache with
  | nil => exact ⟨[], rfl, rfl, nofun⟩
  | cons p rest ih =>
    obtain ⟨raw, hraw⟩ := hparse p List.mem_cons_self
    obtain ⟨targets, htargets, hrefers⟩ := directReferences_eq_ok hc hraw
    -- the rows of the rest start from the cache that the first document leaves
    have hc' : (lib.directReferences p cache).2.Sound lib :=
      directReferences_cache lib p cache ▸ hc.load p
    obtain ⟨table, htable, hshows⟩ := ih hc' fun q hq => hparse q (List.mem_cons_of_mem _ hq)
    generalize hanswer : lib.directReferences p cache = answer at htargets htable
    obtain ⟨_, cache'⟩ := answer
    obtain rfl := htargets
    refine ⟨(p, targets) :: table, ?_, ?_, ?_⟩
    · generalize hrows : lib.referenceRows rest cache' = rows at htable
      obtain ⟨_, cache''⟩ := rows
      obtain rfl := htable
      simp only [referenceRows, hanswer, hrows]
    · rw [List.map_cons, hshows.documents]
    · intro row hrow
      rcases List.mem_cons.1 hrow with rfl | hrow
      · exact hrefers
      · exact hshows.targets row hrow

/-- The references outside the library that a table shows. -/
theorem mem_dangling_iff (h : table.Shows lib documents) :
    q ∈ table.dangling lib ↔ ∃ p ∈ documents, lib.Refers p q ∧ lib.contains q = false := by
  rw [ReferenceTable.dangling, List.mem_filter, List.mem_flatMap]
  constructor
  · rintro ⟨⟨row, hrow, hq⟩, hout⟩
    exact ⟨row.1, h.documents ▸ List.mem_map_of_mem hrow, (h.targets row hrow q).1 hq,
      by simpa using hout⟩
  · rintro ⟨p, hp, href, hout⟩
    rw [← h.documents] at hp
    obtain ⟨row, hrow, rfl⟩ := List.mem_map.1 hp
    exact ⟨⟨row, hrow, (h.targets row hrow q).2 href⟩, by simpa using hout⟩

/-- The row of a document is found in a table. -/
theorem exists_row (h : table.Shows lib documents) (hp : p ∈ documents) :
    ∃ targets, table.lookup p = some targets ∧ ∀ q, q ∈ targets ↔ lib.Refers p q := by
  rw [← h.documents] at hp
  obtain ⟨row, hrow, rfl⟩ := List.mem_map.1 hp
  cases hlookup : table.lookup row.1 with
  | none =>
    have hne := List.lookup_eq_none_iff.1 hlookup row hrow
    simp at hne
  | some targets =>
    obtain ⟨before, after, hsplit, -⟩ := List.lookup_eq_some_iff.1 hlookup
    have hmem : (row.1, targets) ∈ table := hsplit ▸ by simp
    exact ⟨targets, rfl, h.targets _ hmem⟩

/-! ## Compositions -/

/-- A document with a content refers to documents of the library only. -/
theorem contains_of_refers {t : Tree} (h : lib.content p = .ok t) (href : lib.Refers p q) :
    lib.contains q = true := by
  obtain ⟨u, hu⟩ := inlined_of_reaches (content_eq_ok_iff.1 h) (.single href)
  exact contains_of_inlined hu

/-- A missing reference that is reported is one: its document refers to something that is not in the
library. -/
theorem refers_of_fails (hfails : lib.Fails trail p e)
    (he : e = .unresolvedReference referrer target) :
    lib.Refers referrer target ∧ lib.contains target = false := by
  induction hfails with
  | cycle => cases he
  | parse hp hparse =>
    subst he
    rcases parse_eq_error hparse with ⟨-, h⟩ | ⟨-, ⟨_, h⟩ | ⟨_, h⟩⟩ <;> cases h
  | unresolved hp href ht =>
    obtain ⟨rfl, rfl⟩ := ComposeError.unresolvedReference.inj he
    exact ⟨href, ht⟩
  | inheritance => cases he
  | reference _ _ _ _ ih => exact ih he

/-- A document that refers to another one is in the library. -/
theorem contains_of_refers_left (h : lib.Refers p q) : lib.contains p = true := by
  obtain ⟨raw, hraw, -⟩ := refers_iff.1 h
  exact contains_of_parse hraw

/-- A document is rejected for a missing reference only where there is one. -/
theorem refers_of_rejects (hp : lib.contains p = true)
    (h : lib.Rejects p (.unresolvedReference referrer target)) :
    lib.Refers referrer target ∧ lib.contains target = false := by
  cases h with
  | unresolved herror =>
    rw [resolve_start] at herror
    exact refers_of_fails (fails_of_content hp herror) rfl

end Library

open Library

/-- The table of a library and its composition agree. In a library whose documents can all be
parsed, whatever was asked of it before, there is a table with all references of all documents, and
* if a reference of the table is dangling, the library cannot be composed;
* if none is, no composition reports a missing reference;
* a missing reference that is reported stands in the row of its document, and is dangling. -/
theorem compose_agrees_with_table (source : Source) (paths : List DocumentPath)
    (requests : List Request)
    (hparse : ∀ p ∈ (ofPaths source paths).documents, ∃ raw,
      (ofPaths source paths).parse p = .ok raw) :
    let lib := ofPaths source paths
    let outcome := (lib.compose (lib.after requests)).1
    ∃ table, lib.referenceTable = .ok table ∧ table.Shows lib lib.documents ∧
      (table.dangling lib ≠ [] → ∃ e, outcome = .error e) ∧
      (table.dangling lib = [] →
        ∀ referrer target, outcome ≠ .error (.unresolvedReference referrer target)) ∧
      ∀ referrer target, outcome = .error (.unresolvedReference referrer target) →
        ∃ targets, table.lookup referrer = some targets ∧ target ∈ targets ∧
          lib.contains target = false := by
  intro lib outcome
  obtain ⟨table, htable, hshows⟩ := referenceRows_shows Cache.sound_nil hparse
  have hordered := ordered_documents source paths
  have hs := after_atRest lib requests
  have hreported : ∀ referrer target, outcome = .error (.unresolvedReference referrer target) →
      lib.Refers referrer target ∧ lib.contains target = false := by
    intro referrer target herror
    obtain ⟨path, hpath, hrejects, -⟩ := (compose_eq_error_iff hordered hs).1 herror
    exact refers_of_rejects (contains_iff.2 hpath) hrejects
  refine ⟨table, htable, hshows, fun hdangling => ?_, fun hdangling referrer target herror => ?_,
    fun referrer target herror => ?_⟩
  · obtain ⟨q, hq⟩ := List.exists_mem_of_ne_nil _ hdangling
    obtain ⟨p, hp, href, hout⟩ := (mem_dangling_iff hshows).1 hq
    cases hcompose : outcome with
    | error e => exact ⟨e, rfl⟩
    | ok catalog =>
      -- a document with a dangling reference has no content, so it has no event in a catalog
      have hcomposable := (lists_of_compose hordered hs hcompose).composable
      obtain ⟨title, t, hdeclares⟩ := hcomposable.declares p hp
      have hin := contains_of_refers (declares_iff.1 hdeclares).1 href
      rw [hout] at hin
      cases hin
  · obtain ⟨href, hout⟩ := hreported referrer target herror
    have hin := contains_iff.1 (contains_of_refers_left href)
    have hmem := (mem_dangling_iff hshows).2 ⟨referrer, hin, href, hout⟩
    rw [hdangling] at hmem
    cases hmem
  · obtain ⟨href, hout⟩ := hreported referrer target herror
    have hin := contains_iff.1 (contains_of_refers_left href)
    obtain ⟨targets, hlookup, htargets⟩ := exists_row hshows hin
    exact ⟨targets, hlookup, (htargets target).2 href, hout⟩

/-! ## A reference beside a reference -/

/-- An event whose buyer is a person. Beside the reference to the person there is another one, to a
document that is not there. -/
def notedTexts : List (DocumentPath × String) :=
  [(⟨["order.json".toList], by decide⟩,
      "\x7b\"title\":\"Order\",\"buyer\":\x7b\"$ref\":\"person.json\"," ++
        "\"note\":\x7b\"$ref\":\"note.json\"\x7d\x7d\x7d"),
    (⟨["person.json".toList], by decide⟩, "\x7b\"title\":\"Person\"\x7d")]

/-- The library of these texts. -/
def notedLibrary : Library := ofPaths (Source.ofTexts notedTexts) (notedTexts.map Prod.fst)

/-- The table shows the reference beside the other one, so the library cannot be composed. -/
theorem compose_notedLibrary_fails :
    (∀ p ∈ notedLibrary.documents, ∃ raw, notedLibrary.parse p = .ok raw) ∧
      ∃ table, notedLibrary.referenceTable = .ok table ∧ table.dangling notedLibrary ≠ [] ∧
        ∃ e, (notedLibrary.compose (.start [])).1 = .error e := by
  have hparse : ∀ p ∈ notedLibrary.documents, ∃ raw, notedLibrary.parse p = .ok raw := by
    have hall : ∀ p ∈ notedLibrary.documents, (notedLibrary.parse p).isOk = true := by
      decide +kernel
    exact fun p hp => exists_of_isOk (hall p hp)
  obtain ⟨table, htable, -, hfails, -⟩ :=
    compose_agrees_with_table (Source.ofTexts notedTexts) (notedTexts.map Prod.fst) [] hparse
  change notedLibrary.referenceTable = .ok table at htable
  have hdangling : (notedLibrary.referenceTable.toOption.map
      (ReferenceTable.dangling notedLibrary)).any (· ≠ []) = true := by decide +kernel
  have hne : table.dangling notedLibrary ≠ [] := by
    rw [htable] at hdangling
    simpa [Except.toOption] using hdangling
  exact ⟨hparse, table, htable, hne, hfails hne⟩

end EventSchema
