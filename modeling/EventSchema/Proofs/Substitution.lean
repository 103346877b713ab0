import EventSchema.Proofs.Entries
import EventSchema.Proofs.Markers

/-!
# Substitution

* `references_of_covered` — when every reference of a tree has a content, none is left unless a
  string comes to stand under `$ref`;
* `references_aliasTree` — a string that does, and makes a marker of a map that was none;
* `substitute_substitute` — substitution with plain contents and then with others is substitution
  with both, of which the first are asked first;
* `substitute_in_any_order` — so the order does not matter if no target has two contents.

A marker takes its siblings along when it is replaced, and keeps them when it is not. So a second
pass meets other siblings than the first one, but never other targets.
-/

namespace EventSchema

namespace Tree

variable {f g : String → Option Tree}

/-! ## Covered references -/

/-- Where every reference has a content, and no content has references, substitution leaves no
reference just if it puts no string under the key of markers, which it cannot if no reference has a
string for its content. -/
theorem references_of_covered (t : Tree) (content? : String → Option Tree)
    (hcovered : ∀ r ∈ t.references, ∃ u, content? r = some u)
    (hcontents : ∀ r u, content? r = some u → u.references = []) :
    ((t.substitute content?).references = [] ↔ ∀ s, ¬ t.Spells content? s) ∧
      ((∀ r ∈ t.references, ∀ s, content? r ≠ some (.str s)) →
        (t.substitute content?).references = []) := by
  have hleft : (t.substitute content?).references = [] ↔ ∀ s, ¬ t.Spells content? s := by
    rw [List.eq_nil_iff_forall_not_mem]
    refine forall_congr' fun s => not_congr ?_
    rw [mem_references]
    refine mem_targets_substitute t fun r hr => ?_
    obtain ⟨u, hu⟩ := hcovered r (mem_references.2 hr)
    exact ⟨u, hu, references_eq_nil_iff.1 (hcontents r u hu)⟩
  refine ⟨hleft, fun hstrings => hleft.2 fun s => ?_⟩
  exact not_spells_of_string? fun r hr => hstrings r (mem_references.2 hr) s

/-- A tree with a marker under the key of markers, and one among the siblings of another. -/
def nestedTree : Tree :=
  .map [("$ref", .map [("$ref", .str "a.json")]),
    ("items", .seq [.map [("$ref", .str "a.json"), ("note", .map [("$ref", .str "a.json")])]])]

/-- Contents for the references of the tree, and a string for another one. -/
def nestedContents : Keyed Tree := [("a.json", .map [("$ref", .null)]), ("b.json", .str "c.json")]

/-- None of the references of the tree is left, nor is a new one made. -/
theorem references_nestedTree :
    (∀ r ∈ nestedTree.references, ∃ u, Keyed.find? r nestedContents = some u) ∧
      (∀ r u, Keyed.find? r nestedContents = some u → u.references = []) ∧
      (nestedTree.substitute fun r => Keyed.find? r nestedContents).references = [] := by
  have hrefs : nestedTree.references = ["a.json"] := by rfl
  have hcovered : ∀ r ∈ nestedTree.references, ∃ u, Keyed.find? r nestedContents = some u := by
    rw [hrefs]
    simp [nestedContents, Keyed.find?]
  have hcontents : ∀ r u, Keyed.find? r nestedContents = some u → u.references = [] := by
    intro r u hu
    have hmem := Keyed.mem_of_find? hu
    simp only [nestedContents, List.mem_cons, List.not_mem_nil, or_false, Prod.mk.injEq] at hmem
    rcases hmem with ⟨-, rfl⟩ | ⟨-, rfl⟩ <;> rfl
  refine ⟨hcovered, hcontents, (references_of_covered _ _ hcovered hcontents).2 ?_⟩
  rw [hrefs]
  simp [nestedContents, Keyed.find?]

/-- A marker under the key of markers. The map around it is none. -/
def aliasTree : Tree := .map [("$ref", .map [("$ref", .str "a.json")])]

/-- A content for the reference of the tree. -/
def aliasContents : Keyed Tree := [("a.json", .str "b.json")]

/-- The only reference of the tree has a content without references. Since that is a string, the map
around its marker becomes a marker. -/
theorem references_aliasTree :
    (∀ r ∈ aliasTree.references, ∃ u, Keyed.find? r aliasContents = some u) ∧
      (∀ r u, Keyed.find? r aliasContents = some u → u.references = []) ∧
      (aliasTree.substitute fun r => Keyed.find? r aliasContents).references = ["b.json"] := by
  refine ⟨?_, fun r u hu => ?_, rfl⟩
  · have hrefs : aliasTree.references = ["a.json"] := by rfl
    rw [hrefs]
    simp [aliasContents, Keyed.find?]
  · obtain ⟨-, rfl⟩ := Prod.mk.inj (List.mem_singleton.1 (Keyed.mem_of_find? hu))
    rfl

/-! ## One pass after another -/

/-- Where no content is a string, substitution keeps strings and makes no others. -/
theorem string?_substitute (hf : ∀ r u, f r = some u → u.string? = none) (t : Tree) :
    (t.substitute f).string? = t.string? := by
  cases t with
  | map fields =>
    rw [substitute]
    split
    · next u hu =>
      obtain ⟨r, -, hr⟩ := Option.bind_eq_some_iff.1 hu
      exact hf r u hr
    · rfl
  | _ => rfl

/-- Then it keeps the targets of the maps that it walks through. -/
theorem target?_substituteFields (hf : ∀ r u, f r = some u → u.string? = none) (fields : Fields) :
    Fields.target? (substituteFields f fields) = Fields.target? fields := by
  rw [substituteFields_eq, Fields.target?, List.findSome?_map]
  refine congrArg (List.findSome? · fields) (funext fun e => ?_)
  simp only [Function.comp, targetOf?, string?_substitute hf]

/-- Substitution with plain contents and then with others is substitution with both. The first
contents are asked first, and since they have no markers the second ones are not asked within. -/
theorem substitute_substitute (hf : ∀ r u, f r = some u → u.IsPlain) (t : Tree) :
    (t.substitute f).substitute g = t.substitute fun r => (f r).or (g r) := by
  induction t using Tree.byParts with
  | seq items ih =>
    simp only [substitute, substituteItems_eq, List.map_map]
    exact congrArg seq (List.map_congr_left ih)
  | map fields ih =>
    cases hcontent : (Fields.target? fields).bind f with
    | some u =>
      obtain ⟨r, hr, hu⟩ := Option.bind_eq_some_iff.1 hcontent
      simp only [substitute, hr, Option.bind_some, hu, Option.some_or]
      exact substitute_of_targets_eq_nil (hf r u hu).1
    | none =>
      have hnext : (Fields.target? (substituteFields f fields)).bind g =
          (Fields.target? fields).bind fun r => (f r).or (g r) := by
        rw [target?_substituteFields fun r u hu => (hf r u hu).2]
        cases hr : Fields.target? fields with
        | none => rfl
        | some r =>
          rw [hr, Option.bind_some] at hcontent
          simp [hcontent]
      have hfields : substituteFields g (substituteFields f fields) =
          substituteFields (fun r => (f r).or (g r)) fields := by
        simp only [substituteFields_eq, List.map_map]
        exact List.map_congr_left fun e he => congrArg (e.1, ·) (ih e he)
      simp only [substitute, hcontent, hnext, hfields]
  | _ => rfl

/-- The order of substitutions does not matter: where no target has a content on both sides, and all
contents are plain, one pass after the other, in either order, is one pass with all contents. -/
theorem substitute_in_any_order (t : Tree) (f g : String → Option Tree)
    (hdisjoint : ∀ r, f r = none ∨ g r = none) (hf : ∀ r u, f r = some u → u.IsPlain)
    (hg : ∀ r u, g r = some u → u.IsPlain) :
    (t.substitute f).substitute g = (t.substitute fun r => (f r).or (g r)) ∧
      (t.substitute g).substitute f = t.substitute fun r => (f r).or (g r) := by
  refine ⟨substitute_substitute hf t, ?_⟩
  have hunion : (fun r => (g r).or (f r)) = fun r => (f r).or (g r) := by
    funext r
    rcases hdisjoint r with h | h <;> simp [h]
  rw [substitute_substitute hg, hunion]

/-- A marker with a sibling that refers to another document, and one that nothing is known about. -/
def siblingTree : Tree :=
  .seq [.map [("$ref", .str "b.json"), ("more", .map [("$ref", .str "a.json")])],
    .map [("$ref", .str "c.json"), ("more", .map [("$ref", .str "a.json")])]]

/-- A content for the siblings. -/
def siblingContent? (r : String) : Option Tree :=
  Keyed.find? r [("a.json", .map [("type", .str "string")])]

/-- A content for the first marker. -/
def markerContent? (r : String) : Option Tree := Keyed.find? r [("b.json", .seq [])]

/-- The first marker goes with its sibling whether or not that was replaced before. The other one
stays, and so does what its sibling is replaced by. -/
theorem substitute_siblingTree :
    (∀ r, siblingContent? r = none ∨ markerContent? r = none) ∧
      (∀ r u, siblingContent? r = some u → u.IsPlain) ∧
      (∀ r u, markerContent? r = some u → u.IsPlain) ∧
      (siblingTree.substitute siblingContent?).substitute markerContent? =
        .seq [.seq [],
          .map [("$ref", .str "c.json"), ("more", .map [("type", .str "string")])]] ∧
      (siblingTree.substitute markerContent?).substitute siblingContent? =
        .seq [.seq [],
          .map [("$ref", .str "c.json"), ("more", .map [("type", .str "string")])]] := by
  have hdisjoint : ∀ r, siblingContent? r = none ∨ markerContent? r = none := by
    intro r
    by_cases hr : "a.json" = r
    · subst hr
      exact .inr rfl
    · exact .inl (by simp [siblingContent?, Keyed.find?, hr])
  have hsibling : ∀ r u, siblingContent? r = some u → u.IsPlain := by
    intro r u hu
    obtain ⟨-, rfl⟩ := Prod.mk.inj (List.mem_singleton.1 (Keyed.mem_of_find? hu))
    exact ⟨rfl, rfl⟩
  have hmarker : ∀ r u, markerContent? r = some u → u.IsPlain := by
    intro r u hu
    obtain ⟨-, rfl⟩ := Prod.mk.inj (List.mem_singleton.1 (Keyed.mem_of_find? hu))
    exact ⟨rfl, rfl⟩
  have horders := substitute_in_any_order siblingTree _ _ hdisjoint hsibling hmarker
  exact ⟨hdisjoint, hsibling, hmarker, horders.1, horders.2⟩

end Tree

end EventSchema
