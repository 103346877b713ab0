import EventSchema.Composition.Resolution
import EventSchema.Proofs.Markers
import EventSchema.Proofs.Outcomes
import Mathlib.Logic.Relation

/-!
# Inlining

What a document stands for, said without a memory and without a trail: every reference is replaced
by what the document it names stands for.

* `Library.Refers`, `Reaches` — one reference, and a chain of them;
* `Library.inlined` — the content of a document, where references are followed through so many
  levels; more levels never change a content (`inlined_mono_le`);
* `inlined_succ_of_kept` — a document keeps its content where trees and contents are kept;
* `parse_eq_ok_iff`, `source_ofTexts_eq_ok` — which documents can be parsed;
* `inlined_of_refers` — a document has a content only if all its references have one, a level less;
* `inlined_eq_none_of_cycle` — so a document on a cycle has none, however many levels there are.
-/

namespace EventSchema

namespace Library

variable {lib : Library} {p q : DocumentPath} {t u : Tree} {n m : Nat}

/-! ## References between documents -/

/-- A document refers to another. -/
def Refers (lib : Library) (p q : DocumentPath) : Prop :=
  ∃ targets, (lib.directReferences p []).1 = .ok targets ∧ q ∈ targets

/-- A document is another one, or refers to it over any number of documents. -/
abbrev Reaches (lib : Library) : DocumentPath → DocumentPath → Prop :=
  Relation.ReflTransGen lib.Refers

/-- A document refers to another over at least one reference. -/
abbrev ReachesOver (lib : Library) : DocumentPath → DocumentPath → Prop :=
  Relation.TransGen lib.Refers

/-- Every target in a located tree spells a document path, and is the text of that path. -/
theorem ofText_of_mem_targets {raw : Tree} {r : String} (hr : r ∈ (located p raw).targets) :
    ∃ q, DocumentPath.ofText r = .ok q ∧ q.text = r := by
  rw [located, Tree.resolveReferences, Tree.targets_rewriteReferences] at hr
  obtain ⟨reference, -, rfl⟩ := List.mem_map.1 hr
  exact DocumentPath.ofText_joinReference p.isAbsolute_parent reference

/-- The documents that a located tree names are its references, one by one. -/
theorem referencedPaths_located (p : DocumentPath) (raw : Tree) :
    ∃ targets, referencedPaths p (located p raw) = .ok targets ∧
      targets.map DocumentPath.text = (located p raw).references := by
  have key : ∀ references : List String,
      (∀ r ∈ references, ∃ q, DocumentPath.ofText r = .ok q ∧ q.text = r) →
      ∃ targets, (references.mapM fun reference => (DocumentPath.ofText reference).mapError
          (ComposeError.invalidReference p reference)) = .ok targets ∧
        targets.map DocumentPath.text = references := by
    intro references
    induction references with
    | nil => exact fun _ => ⟨[], rfl, rfl⟩
    | cons r rest ih =>
      intro h
      obtain ⟨q, hq, rfl⟩ := h _ List.mem_cons_self
      obtain ⟨targets, ht, hmap⟩ := ih fun s hs => h s (List.mem_cons_of_mem _ hs)
      refine ⟨q :: targets, ?_, by rw [List.map_cons, hmap]⟩
      rw [List.mapM_cons, hq, ht]
      rfl
  exact key _ fun r hr => ofText_of_mem_targets (Tree.mem_references.1 hr)

/-- The documents that a located tree names, as a set. -/
theorem mem_referencedPaths {raw : Tree} {targets : List DocumentPath}
    (h : referencedPaths p (located p raw) = .ok targets) :
    q ∈ targets ↔ q.text ∈ (located p raw).targets := by
  obtain ⟨targets', h', hmap⟩ := referencedPaths_located p raw
  obtain rfl := Except.ok.inj (h.symm.trans h')
  rw [← Tree.mem_references, ← hmap, List.mem_map]
  exact ⟨fun hq => ⟨q, hq, rfl⟩, fun ⟨_, hq, heq⟩ => DocumentPath.text_injective heq ▸ hq⟩

/-- A document refers to those whose texts are targets of its located tree. -/
theorem refers_iff :
    lib.Refers p q ↔ ∃ raw, lib.parse p = .ok raw ∧ q.text ∈ (located p raw).targets := by
  cases hp : lib.parse p with
  | error e => simp [Refers, directReferences, load, hp]
  | ok raw =>
    obtain ⟨targets, ht, -⟩ := referencedPaths_located p raw
    simp [Refers, directReferences, load, hp, ht, mem_referencedPaths ht]

/-! ## Contents -/

/-- The content of a document, with each reference replaced by the content of the document that it
names. References are followed through at most so many levels. -/
def inlined (lib : Library) : Nat → DocumentPath → Option Tree
  | 0, _ => none
  | levels + 1, path =>
    match lib.parse path with
    | .error _ => none
    | .ok raw =>
      let tree := raw.resolveReferences path.parent
      let content? := fun r => (DocumentPath.ofText r).toOption.bind (lib.inlined levels)
      if tree.references.all fun r => (content? r).isSome then
        (tree.substitute content?).inherit.toOption
      else none

/-- The content of the document that a reference names. -/
def inlinedAt (lib : Library) (levels : Nat) (reference : String) : Option Tree :=
  (DocumentPath.ofText reference).toOption.bind (lib.inlined levels)

/-- A reference to a document, by the text of its path. -/
@[simp] theorem inlinedAt_text (n : Nat) (q : DocumentPath) :
    lib.inlinedAt n q.text = lib.inlined n q := by
  simp [inlinedAt, DocumentPath.ofText_text, Except.toOption]

/-- One level of inlining. -/
theorem inlined_succ (lib : Library) (n : Nat) (p : DocumentPath) :
    lib.inlined (n + 1) p =
      match lib.parse p with
      | .error _ => none
      | .ok raw =>
        if (located p raw).references.all fun r => (lib.inlinedAt n r).isSome then
          ((located p raw).substitute (lib.inlinedAt n)).inherit.toOption
        else none :=
  rfl

/-- A document has a content if it can be parsed, all its references have contents, and its bases
can be inherited from. -/
theorem inlined_succ_eq_some_iff :
    lib.inlined (n + 1) p = some t ↔
      ∃ raw, lib.parse p = .ok raw ∧
        (∀ r ∈ (located p raw).targets, ∃ u, lib.inlinedAt n r = some u) ∧
        ((located p raw).substitute (lib.inlinedAt n)).inherit = .ok t := by
  rw [inlined_succ]
  cases hp : lib.parse p with
  | error e => simp
  | ok raw =>
    simp [toOption_eq_some_iff, Option.isSome_iff_exists]

/-- A document keeps its content where it keeps its tree and all documents keep theirs. -/
theorem inlined_succ_of_kept {lib' : Library}
    (hparse : ∀ raw, lib.parse p = .ok raw → lib'.parse p = .ok raw)
    (hkept : ∀ q u, lib.inlined n q = some u → lib'.inlined m q = some u)
    (h : lib.inlined (n + 1) p = some t) : lib'.inlined (m + 1) p = some t := by
  obtain ⟨raw, hraw, hall, ht⟩ := inlined_succ_eq_some_iff.1 h
  have hsame : ∀ r ∈ (located p raw).targets, lib'.inlinedAt m r = lib.inlinedAt n r := by
    intro r hr
    obtain ⟨u, hu⟩ := hall r hr
    obtain ⟨q, -, rfl⟩ := ofText_of_mem_targets hr
    rw [inlinedAt_text] at hu
    rw [inlinedAt_text, inlinedAt_text, hu, hkept q u hu]
  refine inlined_succ_eq_some_iff.2 ⟨raw, hparse raw hraw, fun r hr => ?_, ?_⟩
  · rw [hsame r hr]
    exact hall r hr
  · rw [Tree.substitute_congr _ hsame]
    exact ht

/-- One level more changes no content. -/
theorem inlined_mono (h : lib.inlined n p = some t) : lib.inlined (n + 1) p = some t := by
  induction n generalizing p t with
  | zero => cases h
  | succ n ih => exact inlined_succ_of_kept (fun _ hraw => hraw) (fun _ _ hu => ih hu) h

/-- More levels change no content. -/
theorem inlined_mono_le (hnm : n ≤ m) (h : lib.inlined n p = some t) :
    lib.inlined m p = some t := by
  induction hnm with
  | refl => exact h
  | step _ ih => exact inlined_mono ih

/-- The content of a document does not depend on the number of levels. -/
theorem inlined_unique (h : lib.inlined n p = some t) (h' : lib.inlined m p = some u) : t = u := by
  have ht := inlined_mono_le (Nat.le_max_left n m) h
  have hu := inlined_mono_le (Nat.le_max_right n m) h'
  exact Option.some.inj (ht.symm.trans hu)

/-- Without levels there are no contents. -/
theorem exists_succ_of_inlined (h : lib.inlined n p = some t) : ∃ k, n = k + 1 := by
  cases n with
  | zero => cases h
  | succ k => exact ⟨k, rfl⟩

/-- A document can be parsed if it is enumerated, and its text is there and well-formed. -/
theorem parse_eq_ok_iff {raw : Tree} :
    lib.parse p = .ok raw ↔ p ∈ lib.documents ∧
      ∃ text, lib.source p = .ok text ∧ Markup.parse (format p) text = .ok raw := by
  simp only [parse, contains, List.contains_iff_mem]
  by_cases hp : p ∈ lib.documents
  · simp only [hp, true_and]
    cases lib.source p with
    | error reason => simp
    | ok text => simp [mapError_eq_ok_iff]
  · simp [hp]

/-- The documents of a set of texts. -/
theorem mem_documents_ofTexts {texts : List (DocumentPath × String)} :
    p ∈ (ofTexts texts).documents ↔ ∃ text, (p, text) ∈ texts := by
  simp [ofTexts, ofPaths, mem_sortOnce]

/-- The text of a document is the last one under its path. -/
theorem source_ofTexts_eq_ok {texts : List (DocumentPath × String)} {text : String} :
    (ofTexts texts).source p = .ok text ↔ texts.reverse.lookup p = some text := by
  simp only [ofTexts, ofPaths, Source.ofTexts]
  cases texts.reverse.lookup p <;> simp

/-- The text of a document is one of the set. -/
theorem mem_of_source_ofTexts {texts : List (DocumentPath × String)} {text : String}
    (h : (ofTexts texts).source p = .ok text) : (p, text) ∈ texts := by
  obtain ⟨before, after, hsplit, -⟩ := List.lookup_eq_some_iff.1 (source_ofTexts_eq_ok.1 h)
  exact List.mem_reverse.1 (hsplit ▸ by simp)

/-- Only enumerated documents are parsed. -/
theorem contains_of_parse {raw : Tree} (h : lib.parse p = .ok raw) : lib.contains p = true := by
  cases hp : lib.contains p with
  | true => rfl
  | false => simp [parse, hp] at h

/-- Only enumerated documents have contents. -/
theorem contains_of_inlined (h : lib.inlined n p = some t) : lib.contains p = true := by
  obtain ⟨k, rfl⟩ := exists_succ_of_inlined h
  obtain ⟨raw, hraw, -⟩ := inlined_succ_eq_some_iff.1 h
  exact contains_of_parse hraw

/-! ## Contents along references -/

/-- The references of a document with a content have contents, a level less. -/
theorem inlined_of_refers (h : lib.inlined (n + 1) p = some t) (hpq : lib.Refers p q) :
    ∃ u, lib.inlined n q = some u := by
  obtain ⟨raw, hraw, hall, -⟩ := inlined_succ_eq_some_iff.1 h
  obtain ⟨raw', hraw', hq⟩ := refers_iff.1 hpq
  obtain rfl := Except.ok.inj (hraw.symm.trans hraw')
  obtain ⟨u, hu⟩ := hall _ hq
  exact ⟨u, by rwa [inlinedAt_text] at hu⟩

/-- Over at least one reference a level is lost. -/
theorem inlined_of_reachesOver (h : lib.inlined (n + 1) p = some t) (hpq : lib.ReachesOver p q) :
    ∃ u, lib.inlined n q = some u := by
  induction hpq with
  | single hpq => exact inlined_of_refers h hpq
  | tail _ hqr ih =>
    obtain ⟨u, hu⟩ := ih
    exact inlined_of_refers (inlined_mono hu) hqr

/-- Everything that a document with a content reaches has a content. -/
theorem inlined_of_reaches (h : lib.inlined n p = some t) (hpq : lib.Reaches p q) :
    ∃ u, lib.inlined n q = some u := by
  obtain ⟨k, rfl⟩ := exists_succ_of_inlined h
  rcases Relation.reflTransGen_iff_eq_or_transGen.1 hpq with rfl | hpq
  · exact ⟨t, h⟩
  · obtain ⟨u, hu⟩ := inlined_of_reachesOver h hpq
    exact ⟨u, inlined_mono hu⟩

/-- A document on a cycle has no content. -/
theorem inlined_eq_none_of_cycle (hp : lib.ReachesOver p p) (n : Nat) : lib.inlined n p = none := by
  induction n with
  | zero => rfl
  | succ n ih =>
    rw [Option.eq_none_iff_forall_not_mem]
    intro t ht
    obtain ⟨u, hu⟩ := inlined_of_reachesOver ht hp
    rw [ih] at hu
    cases hu

end Library

end EventSchema
