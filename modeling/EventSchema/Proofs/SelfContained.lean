import EventSchema.Proofs.Histories
import EventSchema.Proofs.Layers

/-!
# Composed schemas are self-contained

After a composition no schema refers to a document, and none names bases.

* `Tree.Within` — a tree stands somewhere in another;
* `enterAll_spec` — what a composition without failures says: each document has a content with a
  title, and the events are the documents with their contents;
* `settled_inlined` — where every document has a content that is no string, no content has markers
  or bases, by induction on the levels of inlining;
* `compose_self_contained` — so it is for the schemas of all events.
-/

namespace EventSchema

/-- A tree is another one, or stands somewhere in it. -/
inductive Tree.Within (t : Tree) : Tree → Prop
  | self : Within t t
  | item {u : Tree} {items : List Tree} (hu : u ∈ items) (h : Within t u) : Within t (.seq items)
  | field {e : String × Tree} {fields : Fields} (he : e ∈ fields) (h : Within t e.2) :
    Within t (.map fields)

open Library

variable {lib : Library} {p : DocumentPath} {t u : Tree} {catalog catalog' : Catalog} {n : Nat}

/-- In a tree without references no map is a marker. -/
theorem Tree.Within.target? (h : t.Within u) (hu : u.targets = []) : t.target? = none := by
  induction h with
  | self =>
    cases t with
    | map fields =>
      rw [Tree.target?, Fields.target?, List.findSome?_eq_none_iff]
      exact fun e he => (Tree.fieldTargets_eq_nil_iff.1 hu e he).1
    | _ => rfl
  | item hmem _ ih => exact ih (Tree.itemTargets_eq_nil_iff.1 hu _ hmem)
  | field he _ ih => exact ih (Tree.fieldTargets_eq_nil_iff.1 hu _ he).2

/-! ## Catalogs -/

/-- A document is entered under the title of its content, with the content as its schema. -/
theorem Catalog.enter_eq_ok (h : catalog.enter p t = .ok catalog') :
    ∃ title, t.title? = some title ∧
      ∀ event ∈ catalog'.events, event = ⟨title, p, t⟩ ∨ event ∈ catalog.events := by
  rcases catalog.enter_cases p t with
    ⟨-, herror⟩ | ⟨_, _, -, -, herror⟩ | ⟨title, htitle, -, hentered⟩
  · exact nomatch h.symm.trans herror
  · exact nomatch h.symm.trans herror
  · obtain rfl := Except.ok.inj (h.symm.trans hentered)
    refine ⟨title, htitle, fun event hevent => ?_⟩
    obtain ⟨e, he, rfl⟩ := List.mem_map.1 hevent
    rcases Keyed.eq_or_mem_of_mem_insert he with rfl | he
    · exact .inl rfl
    · exact .inr (List.mem_map_of_mem he)

/-- Where some documents are entered, each has a content with a title, and the new events are the
documents with their contents. -/
theorem enterAll_spec {documents : List DocumentPath}
    (h : enterAll lib catalog documents = .ok catalog') :
    (∀ document ∈ documents, ∃ t title, lib.content document = .ok t ∧ t.title? = some title) ∧
    ∀ event ∈ catalog'.events,
      event ∈ catalog.events ∨
        (event.document ∈ documents ∧ lib.content event.document = .ok event.schema) := by
  induction documents generalizing catalog with
  | nil =>
    obtain rfl := Except.ok.inj h
    exact ⟨nofun, fun _ => .inl⟩
  | cons document rest ih =>
    rw [enterAll, List.foldlM_cons] at h
    cases hcontent : lib.content document with
    | error e => simp [hcontent, bind, Except.bind] at h
    | ok t =>
      cases henter : catalog.enter document t with
      | error e => simp [hcontent, henter, bind, Except.bind] at h
      | ok entered =>
        simp only [hcontent, henter, bind, Except.bind] at h
        obtain ⟨title, htitle, hevents⟩ := Catalog.enter_eq_ok henter
        obtain ⟨hcontents, hrest⟩ := ih h
        constructor
        · intro d hd
          rcases List.mem_cons.1 hd with rfl | hd
          · exact ⟨t, title, hcontent, htitle⟩
          · exact hcontents d hd
        · intro event hevent
          rcases hrest event hevent with hevent | ⟨hmem, hschema⟩
          · rcases hevents event hevent with rfl | hevent
            · exact .inr ⟨List.mem_cons_self, hcontent⟩
            · exact .inl hevent
          · exact .inr ⟨List.mem_cons_of_mem _ hmem, hschema⟩

/-- What has a title is a map, and so it is no string. -/
theorem string?_eq_none_of_title {title : String} (h : t.title? = some title) :
    t.string? = none := by
  cases t with
  | str value => simp [Tree.title?, Tree.field?] at h
  | _ => rfl

/-! ## Contents -/

/-- Where no document has a string for its content, every content is free of markers and of bases:
the contents that are put in place of its markers are. -/
theorem settled_inlined (hplain : ∀ q u, lib.content q = .ok u → u.string? = none)
    (h : lib.inlined n p = some t) : t.targets = [] ∧ t.field? extendsKey = none := by
  induction n generalizing p t with
  | zero => cases h
  | succ n ih =>
    obtain ⟨raw, -, hcontents, hinherit⟩ := inlined_succ_eq_some_iff.1 h
    refine settled_inherit (Tree.targets_substitute_eq_nil _ fun r hr => ?_) hinherit
    obtain ⟨u, hu⟩ := hcontents r hr
    obtain ⟨q, -, rfl⟩ := ofText_of_mem_targets hr
    rw [inlinedAt_text] at hu
    exact ⟨u, by rw [inlinedAt_text, hu], (ih hu).1, hplain q u (content_of_inlined hu)⟩

/-- Composed schemas are self-contained. Whatever was asked of the library before, if it can be
composed then the schema of every event has no references, so that no map in it is a marker at any
depth, and names no bases. -/
theorem compose_self_contained (lib : Library) (requests : List Request) (catalog : Catalog)
    (h : (lib.compose (lib.after requests)).1 = .ok catalog) :
    ∀ event ∈ catalog.events, event.schema.references = [] ∧
      (∀ t : Tree, t.Within event.schema → t.target? = none) ∧
      event.schema.field? extendsKey = none := by
  rw [compose_eq (after_atRest lib requests)] at h
  obtain ⟨hcontents, hevents⟩ := enterAll_spec h
  have hplain : ∀ q u, lib.content q = .ok u → u.string? = none := by
    intro q u hu
    have hq : q ∈ lib.documents := contains_iff.1 (contains_of_inlined (content_eq_ok_iff.1 hu))
    obtain ⟨t, title, ht, htitle⟩ := hcontents q hq
    rw [hu] at ht
    obtain rfl := Except.ok.inj ht
    exact string?_eq_none_of_title htitle
  intro event hevent
  rcases hevents event hevent with hevent | ⟨-, hschema⟩
  · cases hevent
  · obtain ⟨htargets, hextends⟩ := settled_inlined hplain (content_eq_ok_iff.1 hschema)
    exact ⟨Tree.references_eq_nil_iff.2 htargets, fun t ht => ht.target? htargets, hextends⟩

/-! ## An heir -/

/-- A document that inherits from another, and refers to it from one of its fields. -/
def heirPath : DocumentPath := ⟨["heir.json".toList], by decide⟩

/-- The document that it inherits from. -/
def basePath : DocumentPath := ⟨["base.json".toList], by decide⟩

/-- The library of the two. -/
def heirLibrary : Library :=
  .ofTexts
    [(heirPath, "\x7b\"title\":\"Heir\",\"extends\":\x7b\"$ref\":\"base.json\"\x7d," ++
      "\"items\":[\x7b\"$ref\":\"base.json\"\x7d]\x7d"),
    (basePath, "\x7b\"title\":\"Base\",\"type\":\"object\",\"extends\":[]\x7d")]

/-- The two events of the library. -/
def heirCatalog : Catalog :=
  let base : Fields := [("title", .str "Base"), ("type", .str "object")]
  Catalog.empty
    |>.insert ⟨"Base", basePath, .map base⟩
    |>.insert ⟨"Heir", heirPath,
      .map [("items", .seq [.map base]), ("title", .str "Heir"), ("type", .str "object")]⟩

/-- The library can be composed after a document was resolved; its schemas are self-contained. -/
theorem compose_heirLibrary_self_contained :
    (heirLibrary.compose (heirLibrary.after [.resolve heirPath])).1 = .ok heirCatalog ∧
      ∀ event ∈ heirCatalog.events, event.schema.references = [] ∧
        (∀ t : Tree, t.Within event.schema → t.target? = none) ∧
        event.schema.field? extendsKey = none := by
  have hcompose : (heirLibrary.compose (heirLibrary.after [.resolve heirPath])).1 =
      .ok heirCatalog := toOption_eq_some_iff.1 (by decide +kernel)
  exact ⟨hcompose, compose_self_contained heirLibrary [.resolve heirPath] heirCatalog hcompose⟩

end EventSchema
