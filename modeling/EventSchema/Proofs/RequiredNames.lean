import EventSchema.Proofs.MergedLayers

/-!
# Names required by several layers

The lists of required names of all layers are joined to the first of them, which is kept as it is.

* `required_of_layers` — what the joined list is, and that it is the lists without repetitions just
  if the first of them repeats nothing;
* `required_repeatingSchema` — a name that the first of them repeats is still there twice.
-/

namespace EventSchema

/-- The names that a map requires after it inherited. Where all layers that require names have a
list of them, the first list is kept, and of the others what is new is added, each value once. So
the result is that of all lists without repetitions, and it repeats no value, just if the first list
repeats none. -/
theorem required_of_layers (document merged : Fields) (layers : List Fields)
    (hordered : (Tree.map document).isOrdered = true) (hlayers : HasLayers document layers)
    (hmerged : (Tree.map document).inherit = .ok (.map merged)) (hlists : RequireLists layers) :
    (layers.filterMap Fields.required? = [] → Keyed.find? requiredKey merged = none) ∧
    ∀ first rest, layers.filterMap Fields.required? = first :: rest →
      ∃ items, Keyed.find? requiredKey merged = some (.seq items) ∧
        items = first ++ Tree.distinct (rest.flatten.filter fun t => !first.any (·.same t)) ∧
        (items = Tree.distinct (first :: rest).flatten ↔ Tree.NoRepeats first) ∧
        (Tree.NoRepeats items ↔ Tree.NoRepeats first) := by
  have hsorted := hlayers.sorted hordered
  obtain rfl := Tree.map.inj (inherit_of_hasLayers hlayers hmerged)
  rw [required_overlayAll hsorted hlists]
  constructor
  · intro hnone
    rw [hnone]
    rfl
  · intro first rest hsome
    rw [hsome, joined, foldl_joinItems]
    refine ⟨_, rfl, Tree.joinItems_eq _ _, ?_, Tree.noRepeats_joinItems_iff⟩
    rw [List.flatten_cons, ← Tree.distinct_joinItems, eq_comm, Tree.distinct_eq_self_iff,
      Tree.noRepeats_joinItems_iff]

/-! ## Required names of an order -/

/-- An order has two bases, and all three require names, some of them again. -/
def purchaseSchema : Fields :=
  [("extends", .seq
      [.map [("extends", .map [("required", .seq [.str "id"])]), ("required", .seq [.str "kind"])],
        .map [("required", .seq [.str "at", .str "id", .str "at"])]]),
    ("required", .seq [.str "kind", .str "by"])]

/-- Its layers. -/
def purchaseLayers : List Fields :=
  [[("required", .seq [.str "id", .str "kind"])],
    [("required", .seq [.str "at", .str "id", .str "at"])],
    [("required", .seq [.str "kind", .str "by"])]]

/-- An order with everything it inherits. -/
def purchaseMerged : Fields :=
  [("required", .seq [.str "id", .str "kind", .str "at", .str "by"])]

/-- An order requires each name once, at its first place. -/
theorem required_purchaseLayers :
    (Tree.map purchaseSchema).isOrdered = true ∧ HasLayers purchaseSchema purchaseLayers ∧
      (Tree.map purchaseSchema).inherit = .ok (.map purchaseMerged) ∧
      RequireLists purchaseLayers ∧
      Keyed.find? requiredKey purchaseMerged =
        some (.seq (Tree.distinct (purchaseLayers.filterMap Fields.required?).flatten)) := by
  have hordered : (Tree.map purchaseSchema).isOrdered = true := by decide +kernel
  have hinherit : (Tree.map purchaseSchema).inherit = .ok (.map purchaseMerged) := by
    decide +kernel
  have hlayers : HasLayers purchaseSchema purchaseLayers :=
    ⟨_, [_, _], rfl, .cons ⟨_, rfl, rfl⟩ (.cons ⟨_, rfl, rfl⟩ .nil), rfl⟩
  have hlists : RequireLists purchaseLayers := by decide +kernel
  obtain ⟨-, hrequired⟩ :=
    required_of_layers purchaseSchema purchaseMerged purchaseLayers hordered hlayers hinherit hlists
  obtain ⟨items, hitems, -, hdistinct, -⟩ := hrequired _ _ rfl
  refine ⟨hordered, hlayers, hinherit, hlists, ?_⟩
  rw [hitems, hdistinct.2 (by decide +kernel)]
  rfl

/-! ## A name that one base requires twice -/

/-- The base is the only layer that requires names, and it requires one of them twice. -/
def repeatingSchema : Fields :=
  [("extends", .map [("required", .seq [.str "id", .str "id"])])]

/-- Required names may be repeated: the list of the first layer is kept as it is. -/
theorem required_repeatingSchema :
    ∃ layers merged items, (Tree.map repeatingSchema).isOrdered = true ∧
      HasLayers repeatingSchema layers ∧
      (Tree.map repeatingSchema).inherit = .ok (.map merged) ∧ RequireLists layers ∧
      Keyed.find? requiredKey merged = some (.seq items) ∧
      items ≠ Tree.distinct (layers.filterMap Fields.required?).flatten ∧
      ¬ Tree.NoRepeats items := by
  have hlayers : HasLayers repeatingSchema [[("required", .seq [.str "id", .str "id"])], []] :=
    ⟨_, [_], rfl, .cons ⟨_, rfl, rfl⟩ .nil, rfl⟩
  exact ⟨_, [("required", .seq [.str "id", .str "id"])], [.str "id", .str "id"], by decide +kernel,
    hlayers, by decide +kernel, by decide +kernel, rfl, by decide +kernel, by decide +kernel⟩

end EventSchema
