import EventSchema.Proofs.Markers

/-!
# What rewriting leaves alone

* `Tree.blank` — a tree with nothing under the key of its markers, so that two trees that differ in
  their targets only become the same;
* `blank_rewriteReferences` — rewriting changes nothing but targets;
* `resolveReferences_rewrites_targets` — reading the references from a directory keeps everything
  else of a tree, and makes of each reference the path that it means there.

A `$ref` that is no string belongs to no marker: it is kept, and searched for markers.
-/

namespace EventSchema

namespace Tree

mutual

/-- The tree with an empty target for every marker. -/
def blank : Tree → Tree
  | seq items => seq (blankItems items)
  | map fields => map (blankFields fields)
  | value => value
termination_by structural t => t

/-- The same for the items of a sequence. -/
def blankItems : List Tree → List Tree
  | [] => []
  | t :: ts => blank t :: blankItems ts
termination_by structural ts => ts

/-- The same for the fields of a map. -/
def blankFields : List (String × Tree) → List (String × Tree)
  | [] => []
  | (k, t) :: fields =>
    (k, match targetOf? k t with
      | some _ => str ""
      | none => blank t) :: blankFields fields
termination_by structural fs => fs

end

/-- The items of a sequence are blanked one by one. -/
theorem blankItems_eq (items : List Tree) : blankItems items = items.map blank := by
  induction items with
  | nil => rfl
  | cons t ts ih => rw [blankItems, ih, List.map_cons]

/-- So are the fields of a map, of which one may make a target. -/
theorem blankFields_eq (fields : Fields) :
    blankFields fields = fields.map fun e =>
      (e.1, (targetOf? e.1 e.2).elim e.2.blank fun _ => str "") := by
  induction fields with
  | nil => rfl
  | cons e rest ih =>
    obtain ⟨k, t⟩ := e
    rw [blankFields, ih, List.map_cons]
    cases targetOf? k t <;> rfl

/-- Rewriting changes nothing but targets. -/
theorem blank_rewriteReferences (f : String → String) (t : Tree) :
    (t.rewriteReferences f).blank = t.blank := by
  induction t using Tree.byParts with
  | seq items ih =>
    simp only [rewriteReferences, blank, rewriteItems_eq, blankItems_eq, List.map_map]
    exact congrArg seq (List.map_congr_left ih)
  | map fields ih =>
    simp only [rewriteReferences, blank, rewriteFields_eq, blankFields_eq, List.map_map]
    refine congrArg map (List.map_congr_left fun e he => congrArg (e.1, ·) ?_)
    dsimp only
    rw [targetOf?_rewritten]
    cases targetOf? e.1 e.2 with
    | some target => rfl
    | none => exact ih e he
  | _ => rfl

/-- Reading the references of a tree from a directory changes nothing but the targets of markers,
and the references are then exactly the paths that the old ones mean in the directory. -/
theorem resolveReferences_rewrites_targets (directory : String) (t : Tree) :
    (t.resolveReferences directory).blank = t.blank ∧
      ∀ r, r ∈ (t.resolveReferences directory).references ↔
        ∃ s ∈ t.references, Path.joinReference directory s = r := by
  refine ⟨blank_rewriteReferences _ t, fun r => ?_⟩
  simp only [mem_references, resolveReferences, targets_rewriteReferences, List.mem_map]

end Tree

end EventSchema
