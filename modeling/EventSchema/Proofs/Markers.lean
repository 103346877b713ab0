import EventSchema.Inheritance
import EventSchema.Proofs.SettledPath
import Mathlib.Data.List.Basic

/-!
# Markers in trees

What rewriting and substitution do to the markers of a tree.

* `mem_itemTargets`, `rewriteFields_eq`, `substituteFields_eq`, … — the three walks, part by part;
* `targets_rewriteReferences` — rewriting changes each target and nothing else about the markers;
* `substitute_congr` — substitution asks only for the contents of targets that occur;
* `substitute_rewriteReferences` — where every rewritten target has a content, rewriting first is
  asking for the content of the rewritten target;
* `Spells`, `mem_targets_substitute` — where every target has a content without markers, the targets
  that are left are the strings that substitution puts under `$ref`;
* `targets_substitute_eq_nil` — so none is left if no content is a string.
-/

namespace EventSchema

/-- Only a string under `$ref` makes a target. -/
theorem targetOf?_eq_some_iff {key : String} {value : Tree} {target : String} :
    targetOf? key value = some target ↔ key = referenceKey ∧ value = .str target := by
  by_cases h : key = referenceKey
  · cases value <;> simp [targetOf?, Tree.string?, h]
  · simp [targetOf?, h]

/-- A value that is no string makes no target. -/
theorem targetOf?_eq_none_of_string? {key : String} {value : Tree} (h : value.string? = none) :
    targetOf? key value = none := by
  simp [targetOf?, h]

namespace Tree

variable {t : Tree} {items : List Tree} {fields : Fields} {s : String}

/-- The references of a tree are its targets. -/
@[simp] theorem mem_references {r : String} {t : Tree} : r ∈ t.references ↔ r ∈ t.targets :=
  mem_sortOnce

/-- A tree without references has no markers. -/
theorem references_eq_nil_iff {t : Tree} : t.references = [] ↔ t.targets = [] := by
  simp only [List.eq_nil_iff_forall_not_mem, mem_references]

/-! ## Part by part -/

/-- The targets of the items of a sequence. -/
theorem itemTargets_eq (items : List Tree) : itemTargets items = items.flatMap targets := by
  induction items with
  | nil => rfl
  | cons t ts ih => rw [itemTargets, ih, List.flatMap_cons]

/-- The targets of the fields of a map: the one that a field makes of the map, and those of its
value. -/
theorem fieldTargets_eq (fields : Fields) :
    fieldTargets fields = fields.flatMap fun e => (targetOf? e.1 e.2).toList ++ e.2.targets := by
  induction fields with
  | nil => rfl
  | cons e rest ih =>
    obtain ⟨k, t⟩ := e
    rw [fieldTargets, ih, List.flatMap_cons]
    cases hk : targetOf? k t with
    | some target =>
      obtain ⟨-, rfl⟩ := targetOf?_eq_some_iff.1 hk
      rfl
    | none => rfl

/-- The targets of a sequence are those of its items. -/
theorem mem_itemTargets : s ∈ itemTargets items ↔ ∃ t ∈ items, s ∈ t.targets := by
  rw [itemTargets_eq, List.mem_flatMap]

/-- The targets of a map are its own, and those of its values. -/
theorem mem_fieldTargets :
    s ∈ fieldTargets fields ↔ ∃ e ∈ fields, targetOf? e.1 e.2 = some s ∨ s ∈ e.2.targets := by
  simp only [fieldTargets_eq, List.mem_flatMap, List.mem_append, Option.mem_toList]

/-- The items of a sequence without markers have none. -/
theorem itemTargets_eq_nil_iff : itemTargets items = [] ↔ ∀ t ∈ items, t.targets = [] := by
  rw [itemTargets_eq, List.flatMap_eq_nil_iff]

/-- A map has no markers, and is none itself, if that holds of each field. -/
theorem fieldTargets_eq_nil_iff :
    fieldTargets fields = [] ↔ ∀ e ∈ fields, targetOf? e.1 e.2 = none ∧ e.2.targets = [] := by
  simp only [fieldTargets_eq, List.flatMap_eq_nil_iff, List.append_eq_nil_iff,
    Option.toList_eq_nil_iff]

/-- The target of a marker is among its targets. -/
theorem mem_fieldTargets_of_target? {target : String} (h : Fields.target? fields = some target) :
    target ∈ fieldTargets fields := by
  obtain ⟨e, he, hkey⟩ := List.exists_of_findSome?_eq_some h
  exact mem_fieldTargets.2 ⟨e, he, .inl hkey⟩

/-- A map that is no marker has no field that makes it one. -/
theorem targetOf?_eq_none_of_target? (h : Fields.target? fields = none) :
    ∀ e ∈ fields, targetOf? e.1 e.2 = none := by
  simpa [Fields.target?, List.findSome?_eq_none_iff] using h

/-- A string under the key of markers makes a marker. -/
theorem target?_of_field? (h : t.field? referenceKey = some (.str s)) :
    t.target? = some s := by
  cases t with
  | map fields =>
    rw [field?] at h
    rw [target?]
    induction fields with
    | nil => cases h
    | cons e rest ih =>
      obtain ⟨k, value⟩ := e
      rw [Keyed.find?] at h
      rw [Fields.target?, List.findSome?_cons, targetOf?]
      split at h
      · next hk =>
        obtain rfl := Option.some.inj h
        rw [if_pos hk, string?]
      · next hk =>
        rw [if_neg hk]
        exact ih h
  | _ => cases h

/-- The target of a marker is one of the targets of the tree. -/
theorem mem_targets_of_target? (h : t.target? = some s) : s ∈ t.targets := by
  cases t with
  | map fields => exact mem_fieldTargets_of_target? h
  | _ => cases h

/-- Rewriting goes through the items of a sequence. -/
theorem rewriteItems_eq (f : String → String) (items : List Tree) :
    rewriteItems f items = items.map (rewriteReferences f) := by
  induction items with
  | nil => rfl
  | cons t ts ih => rw [rewriteItems, ih, List.map_cons]

/-- Rewriting goes through the fields of a map, and changes the target that one makes of it. -/
theorem rewriteFields_eq (f : String → String) (fields : Fields) :
    rewriteFields f fields = fields.map fun e =>
      (e.1, (targetOf? e.1 e.2).elim (e.2.rewriteReferences f) fun target => str (f target)) := by
  induction fields with
  | nil => rfl
  | cons e rest ih =>
    obtain ⟨k, t⟩ := e
    rw [rewriteFields, ih, List.map_cons]
    cases targetOf? k t <;> rfl

/-- Substitution goes through the items of a sequence. -/
theorem substituteItems_eq (content? : String → Option Tree) (items : List Tree) :
    substituteItems content? items = items.map (substitute content?) := by
  induction items with
  | nil => rfl
  | cons t ts ih => rw [substituteItems, ih, List.map_cons]

/-- Substitution goes through the values of a map. -/
theorem substituteFields_eq (content? : String → Option Tree) (fields : Fields) :
    substituteFields content? fields = fields.map fun e => (e.1, e.2.substitute content?) := by
  induction fields with
  | nil => rfl
  | cons e rest ih => rw [substituteFields, ih, List.map_cons]

/-! ## Rewriting -/

/-- Rewriting makes no string of what is none. -/
theorem string?_rewriteReferences (f : String → String) (t : Tree) :
    (t.rewriteReferences f).string? = t.string? := by
  cases t <;> rfl

/-- The target that a field makes of its map, after rewriting. -/
theorem targetOf?_rewritten (f : String → String) (key : String) (t : Tree) :
    targetOf? key ((targetOf? key t).elim (t.rewriteReferences f) fun target => str (f target)) =
      (targetOf? key t).map f := by
  cases h : targetOf? key t with
  | some target =>
    obtain ⟨rfl, -⟩ := targetOf?_eq_some_iff.1 h
    exact targetOf?_eq_some_iff.2 ⟨rfl, rfl⟩
  | none => simpa [targetOf?, string?_rewriteReferences] using h

/-- Rewriting changes each target, and nothing else about the markers. -/
theorem targets_rewriteReferences (f : String → String) (t : Tree) :
    (t.rewriteReferences f).targets = t.targets.map f := by
  induction t using Tree.byParts with
  | seq items ih =>
    simp only [rewriteReferences, targets, itemTargets_eq, rewriteItems_eq, List.flatMap_map,
      List.map_flatMap]
    exact List.flatMap_congr ih
  | map fields ih =>
    simp only [rewriteReferences, targets, fieldTargets_eq, rewriteFields_eq, List.flatMap_map,
      List.map_flatMap, targetOf?_rewritten, List.map_append, Option.toList_map]
    refine List.flatMap_congr fun e he => congrArg _ ?_
    cases h : targetOf? e.1 e.2 with
    | some target => 
      obtain ⟨-, heq⟩ := targetOf?_eq_some_iff.1 h
      rw [heq]
      rfl
    | none => exact ih e he
  | _ => rfl

/-- Rewriting changes the target of a marker, and makes no map a marker. -/
theorem target?_rewriteFields (f : String → String) (fields : Fields) :
    Fields.target? (rewriteFields f fields) = (Fields.target? fields).map f := by
  simp only [Fields.target?, rewriteFields_eq, List.findSome?_map, List.map_findSome?,
    Function.comp_def, targetOf?_rewritten]

/-! ## Substitution -/

section Substitution

variable {f g content? : String → Option Tree} {rewrite : String → String}

/-- Substitution asks only for the contents of targets that occur. -/
theorem substitute_congr (t : Tree) (h : ∀ r ∈ t.targets, f r = g r) :
    t.substitute f = t.substitute g := by
  induction t using Tree.byParts with
  | seq items ih =>
    simp only [substitute, substituteItems_eq]
    exact congrArg seq (List.map_congr_left fun t ht => ih t ht fun r hr =>
      h r (mem_itemTargets.2 ⟨t, ht, hr⟩))
  | map fields ih =>
    have hbind : (Fields.target? fields).bind f = (Fields.target? fields).bind g := by
      cases ht : Fields.target? fields with
      | none => rfl
      | some target => exact h target (mem_fieldTargets_of_target? ht)
    have hfields : substituteFields f fields = substituteFields g fields := by
      simp only [substituteFields_eq]
      exact List.map_congr_left fun e he => congrArg (e.1, ·) (ih e he fun r hr =>
        h r (mem_fieldTargets.2 ⟨e, he, .inr hr⟩))
    simp only [substitute, hbind, hfields]
  | _ => rfl

/-- Where nothing has a content, nothing is replaced. -/
theorem substitute_none (t : Tree) : (t.substitute fun _ => none) = t := by
  induction t using Tree.byParts with
  | seq items ih =>
    rw [substitute, substituteItems_eq, List.map_congr_left ih, List.map_id']
  | map fields ih =>
    have hfields : (fields.map fun e => (e.1, e.2.substitute fun _ => none)) = fields := by
      rw [List.map_congr_left fun e he => congrArg (e.1, ·) (ih e he)]
      exact List.map_id _
    rw [substitute, Option.bind_fun_none, substituteFields_eq, hfields]
  | _ => rfl

/-- In a tree without markers nothing is replaced. -/
theorem substitute_of_targets_eq_nil (h : t.targets = []) : t.substitute f = t := by
  rw [substitute_congr t (g := fun _ => none) (by simp [h]), substitute_none]

/-- A marker whose target has a content is replaced as a whole. -/
theorem substitute_of_target? {content : Tree} (h : t.target? = some s)
    (hcontent : content? s = some content) : t.substitute content? = content := by
  cases t with
  | map fields =>
    have htarget : Fields.target? fields = some s := h
    simp only [substitute, htarget, Option.bind_some, hcontent]
  | _ => cases h

/-- Where every rewritten target has a content, nothing of the rewriting is left: the content of
each marker is the one of its rewritten target. -/
theorem substitute_rewriteReferences (t : Tree)
    (h : ∀ r ∈ t.targets, ∃ u, content? (rewrite r) = some u) :
    (t.rewriteReferences rewrite).substitute content? =
      t.substitute fun r => content? (rewrite r) := by
  induction t using Tree.byParts with
  | seq items ih =>
    simp only [rewriteReferences, substitute, rewriteItems_eq, substituteItems_eq, List.map_map]
    exact congrArg seq (List.map_congr_left fun t ht => ih t ht fun r hr =>
      h r (mem_itemTargets.2 ⟨t, ht, hr⟩))
  | map fields ih =>
    cases ht : Fields.target? fields with
    | some target =>
      obtain ⟨u, hu⟩ := h target (mem_fieldTargets_of_target? ht)
      simp [rewriteReferences, substitute, target?_rewriteFields, ht, hu]
    | none =>
      have hfields : substituteFields content? (rewriteFields rewrite fields) =
          substituteFields (fun r => content? (rewrite r)) fields := by
        simp only [rewriteFields_eq, substituteFields_eq, List.map_map]
        refine List.map_congr_left fun e he => congrArg (e.1, ·) ?_
        dsimp only
        rw [targetOf?_eq_none_of_target? ht e he]
        exact ih e he fun r hr => h r (mem_fieldTargets.2 ⟨e, he, .inr hr⟩)
      simp only [rewriteReferences, substitute, target?_rewriteFields, ht, Option.map_none,
        Option.bind_none, hfields]
  | _ => rfl

end Substitution

/-! ## What substitution leaves -/

section Covering

variable {content? : String → Option Tree}

/-- A content that is needed: it has no markers, and it is no string. -/
def IsPlain (t : Tree) : Prop := t.targets = [] ∧ t.string? = none

/-- A map stands in a tree, and neither the map nor one around it is a marker. -/
inductive Exposed (fields : Fields) : Tree → Prop
  | self (h : Fields.target? fields = none) : Exposed fields (map fields)
  | item {items : List Tree} {t : Tree} (ht : t ∈ items) (h : Exposed fields t) :
    Exposed fields (seq items)
  | field {outer : Fields} {e : String × Tree} (houter : Fields.target? outer = none)
    (he : e ∈ outer) (h : Exposed fields e.2) : Exposed fields (map outer)

/-- Substitution puts a string under the key of markers: in a map that is no marker there stands one
under this key that has the string for its content. -/
def Spells (content? : String → Option Tree) (t : Tree) (s : String) : Prop :=
  ∃ fields, Exposed fields t ∧ ∃ value r, (referenceKey, value) ∈ fields ∧
    value.target? = some r ∧ content? r = some (str s)

/-- Substitution makes a string of that string, and of a marker that has it as its content. -/
theorem substitute_eq_str_iff :
    t.substitute content? = str s ↔
      t = str s ∨ ∃ r, t.target? = some r ∧ content? r = some (str s) := by
  cases t with
  | map fields =>
    simp only [substitute, target?]
    cases hr : Fields.target? fields with
    | none => simp
    | some r => cases hu : content? r <;> simp [hu]
  | _ => simp [substitute, target?]

/-- In a sequence it is its items that spell. -/
theorem spells_seq : (seq items).Spells content? s ↔ ∃ t ∈ items, t.Spells content? s := by
  constructor
  · rintro ⟨fields, hexposed, hspelled⟩
    cases hexposed with
    | item ht h => exact ⟨_, ht, fields, h, hspelled⟩
  · rintro ⟨t, ht, fields, h, hspelled⟩
    exact ⟨fields, .item ht h, hspelled⟩

/-- In a map that is no marker it is the map itself, or its values. -/
theorem spells_map (h : Fields.target? fields = none) :
    (map fields).Spells content? s ↔
      ∃ e ∈ fields, (e.1 = referenceKey ∧ ∃ r, e.2.target? = some r ∧ content? r = some (str s)) ∨
        e.2.Spells content? s := by
  constructor
  · rintro ⟨inner, hexposed, hspelled⟩
    cases hexposed with
    | self =>
      obtain ⟨value, r, hmem, hr⟩ := hspelled
      exact ⟨_, hmem, .inl ⟨rfl, r, hr⟩⟩
    | field _ he hinner => exact ⟨_, he, .inr ⟨inner, hinner, hspelled⟩⟩
  · rintro ⟨⟨k, value⟩, he, ⟨rfl, r, hr⟩ | ⟨inner, hinner, hspelled⟩⟩
    · exact ⟨fields, .self h, value, r, he, hr⟩
    · exact ⟨inner, .field h he hinner, hspelled⟩

/-- Nothing is spelled in a marker. -/
theorem not_spells_of_target? {r : String} (h : Fields.target? fields = some r) :
    ¬ (map fields).Spells content? s := by
  rintro ⟨inner, hexposed, -⟩
  cases hexposed <;> simp_all

/-- Where every target has a content without markers, the targets that are left are the strings that
substitution puts under the key of markers. -/
theorem mem_targets_substitute (t : Tree)
    (h : ∀ r ∈ t.targets, ∃ u, content? r = some u ∧ u.targets = []) :
    s ∈ (t.substitute content?).targets ↔ t.Spells content? s := by
  induction t using Tree.byParts with
  | seq items ih =>
    rw [spells_seq, substitute, targets, substituteItems_eq, mem_itemTargets]
    simp only [List.mem_map, exists_exists_and_eq_and]
    refine exists_congr fun t => and_congr_right fun ht => ih t ht fun r hr => ?_
    exact h r (mem_itemTargets.2 ⟨t, ht, hr⟩)
  | map fields ih =>
    cases hr : Fields.target? fields with
    | some r =>
      obtain ⟨u, hu, hnil⟩ := h r (mem_fieldTargets_of_target? hr)
      simp [substitute, hr, hu, hnil, not_spells_of_target? hr]
    | none =>
      rw [spells_map hr, substitute, hr, Option.bind_none, targets, substituteFields_eq,
        mem_fieldTargets]
      simp only [List.mem_map, exists_exists_and_eq_and]
      refine exists_congr fun e => and_congr_right fun he => or_congr ?_ ?_
      · -- the map was no marker, so what stands under the key of markers was no string
        rw [targetOf?_eq_some_iff, substitute_eq_str_iff]
        refine and_congr_right fun hkey => or_iff_right fun hstr => ?_
        have hnone := targetOf?_eq_none_of_target? hr e he
        rw [targetOf?_eq_some_iff.2 ⟨hkey, hstr⟩] at hnone
        cases hnone
      · exact ih e he fun r hr => h r (mem_fieldTargets.2 ⟨e, he, .inr hr⟩)
  | _ =>
    refine ⟨nofun, ?_⟩
    rintro ⟨fields, hexposed, -⟩
    cases hexposed

/-- The targets of the values of an exposed map are targets of the tree. -/
theorem Exposed.mem_targets (h : Exposed fields t) {e : String × Tree} (he : e ∈ fields)
    (hs : s ∈ e.2.targets) : s ∈ t.targets := by
  induction h with
  | self => exact mem_fieldTargets.2 ⟨e, he, .inr hs⟩
  | item ht _ ih => exact mem_itemTargets.2 ⟨_, ht, ih⟩
  | field _ hmem _ ih => exact mem_fieldTargets.2 ⟨_, hmem, .inr ih⟩

/-- Where no target has a string for its content, nothing is spelled. -/
theorem not_spells_of_string? (h : ∀ r ∈ t.targets, content? r ≠ some (str s)) :
    ¬ t.Spells content? s := by
  rintro ⟨fields, hexposed, value, r, hmem, hr, hcontent⟩
  refine h r (hexposed.mem_targets hmem ?_) hcontent
  cases value with
  | map inner => exact mem_fieldTargets_of_target? hr
  | _ => cases hr

/-- Where every target has a plain content, no marker is left. -/
theorem targets_substitute_eq_nil (t : Tree)
    (h : ∀ r ∈ t.targets, ∃ u, content? r = some u ∧ u.IsPlain) :
    (t.substitute content?).targets = [] := by
  refine List.eq_nil_iff_forall_not_mem.2 fun s => ?_
  rw [mem_targets_substitute t fun r hr => (h r hr).imp fun u hu => ⟨hu.1, hu.2.1⟩]
  refine not_spells_of_string? fun r hr hcontent => ?_
  obtain ⟨u, hu, -, hstr⟩ := h r hr
  rw [hcontent] at hu
  obtain rfl := Option.some.inj hu
  cases hstr

end Covering

end Tree

end EventSchema
