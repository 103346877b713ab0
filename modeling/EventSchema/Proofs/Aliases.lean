import EventSchema.Proofs.Catalogs
import EventSchema.Proofs.Cycles
import EventSchema.Proofs.MergedLayers
import EventSchema.Proofs.Placement

/-!
# Aliases

A document with a reference at its root is an alias of the document that it refers to. It has the
title of that document or none, so there is no catalog for both.

* `inherit_inherit` — what has inherited inherits nothing more;
* `Library.IsAlias` — a document and the one that it is an alias of;
* `content_of_isAlias` — an alias with a content has exactly the content of its target;
* `ne_of_isAlias` — and then it is not its own target;
* `Library.AliasFault` — why an alias declares no event of its own, which is so for every alias
  (`aliasFault_of_isAlias`) and for no document that can be composed (`Composable.not_aliasFault`);
* `compose_alias_fails` — so no library with an alias can be composed.
-/

namespace EventSchema

/-- A document is an alias of another one: at its root it refers to it. What else it holds does not
matter. -/
def Library.IsAlias (lib : Library) (p q : DocumentPath) : Prop :=
  ∃ raw reference, lib.parse p = .ok raw ∧ raw.field? referenceKey = some (.str reference) ∧
    q = p.target reference

/-- Why an alias declares no event of its own. -/
inductive Library.AliasFault (lib : Library) (p q : DocumentPath) : Prop
  /-- its target is not in the library, and it is not resolved -/
  | missing {e : ComposeError} (hq : q ∉ lib.documents)
      (h : (lib.resolve p (Session.start [])).1 = .error e)
  /-- it leads to a cycle, and is not resolved -/
  | cyclic {r : DocumentPath} {e : ComposeError} (hr : lib.Reaches p r)
      (hcycle : lib.ReachesOver r r) (h : (lib.resolve p (Session.start [])).1 = .error e)
  /-- it is not resolved for another reason -/
  | unresolved {e : ComposeError} (hq : q ∈ lib.documents)
      (hacyclic : ∀ r, lib.Reaches p r → ¬ lib.ReachesOver r r)
      (h : (lib.resolve p (Session.start [])).1 = .error e)
  /-- it is resolved to exactly what its target is resolved to, which has no title -/
  | untitled {t : Tree} (h : (lib.resolve p (Session.start [])).1 = .ok t)
      (hq : (lib.resolve q (Session.start [])).1 = .ok t) (ht : t.title? = none)
  /-- it is resolved to exactly what its target is resolved to, and repeats the title of that -/
  | repeated {t : Tree} {title : String} (hne : q ≠ p) (h : lib.Declares p title t)
      (hq : lib.Declares q title t)

open Library

variable {lib : Library} {p q : DocumentPath} {t u : Tree}

/-- What has inherited inherits nothing more. -/
theorem inherit_inherit (h : t.inherit = .ok u) : u.inherit = .ok u := by
  cases u with
  | map merged => exact inherit_of_no_bases (find?_extendsKey_inherit h)
  | _ => rfl

/-! ## Contents of aliases -/

/-- An alias refers to its target. -/
theorem refers_of_isAlias (h : lib.IsAlias p q) : lib.Refers p q := by
  obtain ⟨raw, reference, hraw, hmarker, rfl⟩ := h
  exact refers_target hraw (Tree.mem_targets_of_target? (Tree.target?_of_field? hmarker))

/-- An alias with a content has exactly the content of its target: the content replaces the whole
document, and has inherited before. -/
theorem content_of_isAlias (h : lib.IsAlias p q) (ht : lib.content p = .ok t) :
    lib.content q = .ok t := by
  obtain ⟨raw, reference, hraw, hmarker, rfl⟩ := h
  obtain ⟨n, hn⟩ := exists_inlined_succ ht
  obtain ⟨raw', hraw', hcontents, hinherit⟩ := inlined_succ_iff_target.1 hn
  obtain rfl : raw = raw' := Except.ok.inj (hraw.symm.trans hraw')
  have htarget := Tree.target?_of_field? hmarker
  obtain ⟨u, hu⟩ := hcontents reference (Tree.mem_targets_of_target? htarget)
  rw [Tree.substitute_of_target? htarget hu] at hinherit
  -- the content of the target was made by inheriting as well
  obtain ⟨k, rfl⟩ := exists_succ_of_inlined hu
  obtain ⟨_, -, -, hinherited⟩ := inlined_succ_eq_some_iff.1 hu
  obtain rfl : u = t := Except.ok.inj ((inherit_inherit hinherited).symm.trans hinherit)
  exact content_of_inlined hu

/-- An alias with a content is no alias of itself. -/
theorem ne_of_isAlias (h : lib.IsAlias p q) (ht : lib.content p = .ok t) : q ≠ p := by
  rintro rfl
  exact content_ne_ok_of_cycle .refl (.single (refers_of_isAlias h)) ht

/-! ## Aliases and catalogs -/

/-- Every alias has such a fault. -/
theorem aliasFault_of_isAlias (h : lib.IsAlias p q) : lib.AliasFault p q := by
  cases hcontent : lib.content p with
  | error e =>
    rw [← resolve_start] at hcontent
    by_cases hq : q ∈ lib.documents
    · by_cases hcycle : ∃ r, lib.Reaches p r ∧ lib.ReachesOver r r
      · obtain ⟨r, hr, hcycle⟩ := hcycle
        exact .cyclic hr hcycle hcontent
      · exact .unresolved hq (fun r hr hrr => hcycle ⟨r, hr, hrr⟩) hcontent
    · exact .missing hq hcontent
  | ok t =>
    have htarget := content_of_isAlias h hcontent
    cases htitle : t.title? with
    | none =>
      rw [← resolve_start] at hcontent htarget
      exact .untitled hcontent htarget htitle
    | some title =>
      exact .repeated (ne_of_isAlias h hcontent) (declares_iff.2 ⟨hcontent, htitle⟩)
        (declares_iff.2 ⟨htarget, htitle⟩)

/-- Only documents of the library declare events. -/
theorem Library.Declares.mem_documents {title : String} (h : lib.Declares p title t) :
    p ∈ lib.documents :=
  contains_iff.1 (contains_of_inlined (content_eq_ok_iff.1 (declares_iff.1 h).1))

/-- Where each document declares an event of its own, none has such a fault. -/
theorem Library.Composable.not_aliasFault (h : lib.Composable) (hp : p ∈ lib.documents) :
    ¬ lib.AliasFault p q := by
  obtain ⟨title, t, hdeclares⟩ := h.declares p hp
  intro hfault
  cases hfault with
  | missing _ herror => exact nomatch herror.symm.trans hdeclares.resolves
  | cyclic _ _ herror => exact nomatch herror.symm.trans hdeclares.resolves
  | unresolved _ _ herror => exact nomatch herror.symm.trans hdeclares.resolves
  | untitled hok _ htitle =>
    obtain rfl := Except.ok.inj (hok.symm.trans hdeclares.resolves)
    exact nomatch htitle.symm.trans hdeclares.title?
  | repeated hne hsame hq =>
    exact hne (h.distinct q hq.mem_documents p hp _ _ _ hq hsame)

/-- A document that is only an alias never compiles. Whatever was asked of a library before, if one
of its documents is an alias then it cannot be composed, and the alias is at fault:
* its target is not in the library, it leads to a cycle, or it is not resolved for another reason;
* or it is resolved to exactly what its target is resolved to. Then it has no title, or it repeats
  the title of its target, which is another document. -/
theorem compose_alias_fails (source : Source) (paths : List DocumentPath)
    (requests : List Request) (p q : DocumentPath)
    (h : (Library.ofPaths source paths).IsAlias p q) :
    let lib := Library.ofPaths source paths
    (∃ e, (lib.compose (lib.after requests)).1 = .error e) ∧ lib.AliasFault p q := by
  intro lib
  have hfault : lib.AliasFault p q := aliasFault_of_isAlias h
  refine ⟨?_, hfault⟩
  have hp : p ∈ lib.documents := by
    obtain ⟨raw, _, hraw, -⟩ := h
    exact contains_iff.1 (contains_of_parse hraw)
  have hs := after_atRest lib requests
  rcases compose_cases (ordered_documents source paths) hs with
    ⟨catalog, -, hlists⟩ | ⟨e, path, herror, -⟩
  · exact absurd hfault (hlists.composable.not_aliasFault hp)
  · exact ⟨e, herror⟩

/-! ## An alias with a title of its own -/

/-- A document that refers to another one, and has a title beside the reference. -/
def aliasPath : DocumentPath := ⟨["alias.json".toList], by decide⟩

/-- The document that it refers to. -/
def ownPath : DocumentPath := ⟨["own.json".toList], by decide⟩

/-- The library of the two. -/
def aliasLibrary : Library :=
  .ofTexts
    [(aliasPath, "\x7b\"$ref\":\"own.json\",\"title\":\"Alias\"\x7d"),
      (ownPath, "\x7b\"title\":\"Own\",\"extends\":[\x7b\"type\":\"object\"\x7d]\x7d")]

/-- The title beside the reference does not help: after the other document was resolved the library
cannot be composed. -/
theorem compose_aliasLibrary_fails :
    aliasLibrary.IsAlias aliasPath ownPath ∧
      (∃ e, (aliasLibrary.compose (aliasLibrary.after [.resolve ownPath])).1 = .error e) ∧
      aliasLibrary.AliasFault aliasPath ownPath := by
  have hraw : aliasLibrary.parse aliasPath =
      .ok (.map [("$ref", .str "own.json"), ("title", .str "Alias")]) :=
    toOption_eq_some_iff.1 (by decide +kernel)
  have halias : aliasLibrary.IsAlias aliasPath ownPath :=
    ⟨_, "own.json", hraw, rfl, by decide +kernel⟩
  exact ⟨halias, compose_alias_fails _ _ [.resolve ownPath] aliasPath ownPath halias⟩

end EventSchema
