import EventSchema.Proofs.Bases
import EventSchema.Proofs.JoinedItems
import EventSchema.Proofs.OrderedTrees

/-!
# What a map inherits

Which values a map has after it inherited, key by key, from those of its layers.

* `topmost?` — what the last layer says that says something;
* `find?_overlay`, `find?_overlayAll_append` — what is found in one layer over another, and in some
  layers with one more on top;
* `find?_overlayAll_of_replaced` — under most keys the last value counts;
* `find?_overlayAll_of_joined` — under a key whose values are joined, all values count;
* `MergeLaw` — the law of inheritance, for each kind of keys;
* `inherit_merges` — a map in order that can inherit obeys it, and it can inherit unless something
  is wrong with one of its bases.
-/

namespace EventSchema

variable {key name : String} {t : Tree} {fields lower upper layer document : Fields}
  {layers : List Fields} {α β : Type}

/-! ## Layers as views -/

/-- What the last of some layers says that says something. -/
def topmost? (view : Fields → Option α) (layers : List Fields) : Option α :=
  layers.reverse.findSome? view

/-- The layer on top counts before the others. -/
theorem topmost?_append (view : Fields → Option α) (layers : List Fields) (layer : Fields) :
    topmost? view (layers ++ [layer]) = (view layer).or (topmost? view layers) := by
  rw [topmost?, List.reverse_append, List.reverse_singleton, List.singleton_append,
    List.findSome?_cons]
  cases view layer <;> rfl

/-- Where no layer says something, neither does the last one. -/
theorem topmost?_eq_none {view : Fields → Option α} (h : ∀ layer ∈ layers, view layer = none) :
    topmost? view layers = none :=
  List.findSome?_eq_none_iff.2 fun layer hlayer => h layer (List.mem_reverse.1 hlayer)

/-- The properties that a layer declares. -/
def Fields.declared? (layer : Fields) : Option Fields :=
  match Keyed.find? propertiesKey layer with
  | some (.map declared) => some declared
  | _ => none

/-- The names that a layer requires. -/
def Fields.required? (layer : Fields) : Option (List Tree) :=
  match Keyed.find? requiredKey layer with
  | some (.seq items) => some items
  | _ => none

/-- The declaration of a property in a layer. -/
def declaration? (name : String) (layer : Fields) : Option Tree :=
  (Fields.declared? layer).bind (Keyed.find? name)

/-- All layers that have properties have a map of them. -/
def DeclareMaps (layers : List Fields) : Prop :=
  ∀ layer ∈ layers, ∀ t, Keyed.find? propertiesKey layer = some t → ∃ declared, t = .map declared

/-- All layers that have required names have a list of them. -/
def RequireLists (layers : List Fields) : Prop :=
  ∀ layer ∈ layers, ∀ t, Keyed.find? requiredKey layer = some t → ∃ items, t = .seq items

/-- What a layer declares is what is under its key. -/
theorem DeclareMaps.find?_eq (h : DeclareMaps layers) (hlayer : layer ∈ layers) :
    Keyed.find? propertiesKey layer = (Fields.declared? layer).map .map := by
  rw [Fields.declared?]
  cases hfound : Keyed.find? propertiesKey layer with
  | none => rfl
  | some t =>
    obtain ⟨declared, rfl⟩ := h layer hlayer t hfound
    rfl

/-- What a layer requires is what is under its key. -/
theorem RequireLists.find?_eq (h : RequireLists layers) (hlayer : layer ∈ layers) :
    Keyed.find? requiredKey layer = (Fields.required? layer).map .seq := by
  rw [Fields.required?]
  cases hfound : Keyed.find? requiredKey layer with
  | none => rfl
  | some t =>
    obtain ⟨items, rfl⟩ := h layer hlayer t hfound
    rfl

instance (layers : List Fields) : Decidable (DeclareMaps layers) :=
  decidable_of_iff (∀ layer ∈ layers,
      Keyed.find? propertiesKey layer = (Fields.declared? layer).map .map) <| by
    refine ⟨fun h layer hlayer t ht => ?_, fun h _ => h.find?_eq⟩
    obtain ⟨declared, -, rfl⟩ := Option.map_eq_some_iff.1 ((h layer hlayer).symm.trans ht)
    exact ⟨declared, rfl⟩

instance (layers : List Fields) : Decidable (RequireLists layers) :=
  decidable_of_iff (∀ layer ∈ layers,
      Keyed.find? requiredKey layer = (Fields.required? layer).map .seq) <| by
    refine ⟨fun h layer hlayer t ht => ?_, fun h _ => h.find?_eq⟩
    obtain ⟨items, -, rfl⟩ := Option.map_eq_some_iff.1 ((h layer hlayer).symm.trans ht)
    exact ⟨items, rfl⟩

/-! ## One layer over another -/

/-- Under most keys the upper value counts. -/
theorem combine_of_replaced (hproperties : key ≠ propertiesKey) (hrequired : key ≠ requiredKey)
    (lower? : Option Tree) (upper : Tree) : combine key lower? upper = upper := by
  unfold combine
  split
  · rw [if_neg hproperties]
  · rw [if_neg hrequired]
  · rfl

/-- One entry more. -/
theorem overlay_cons (lower : Fields) (key : String) (t : Tree) (upper : Fields) :
    overlay lower ((key, t) :: upper) =
      overlay (Keyed.insert key (combine key (Keyed.find? key lower) t) lower) upper := rfl

/-- What is found in a layer over another: the value of the upper one, combined with that of the
lower one, or else the value of the lower one. -/
theorem find?_overlay (hupper : Keyed.Sorted upper) (key : String) (lower : Fields) :
    Keyed.find? key (overlay lower upper) =
      ((Keyed.find? key upper).map (combine key (Keyed.find? key lower))).or
        (Keyed.find? key lower) := by
  induction upper generalizing lower with
  | nil => rfl
  | cons d rest ih =>
    obtain ⟨k, t⟩ := d
    rw [overlay_cons, ih (List.pairwise_cons.1 hupper).2, Keyed.find?_insert]
    by_cases hk : key = k
    · subst hk
      simp [Keyed.find?, hupper.find?_tail]
    · simp [Keyed.find?, hk, Ne.symm hk]

/-- What is found in some layers with one more on top. -/
theorem find?_overlayAll_append (hlayer : Keyed.Sorted layer) (key : String)
    (layers : List Fields) :
    Keyed.find? key (overlayAll (layers ++ [layer])) =
      ((Keyed.find? key layer).map (combine key (Keyed.find? key (overlayAll layers)))).or
        (Keyed.find? key (overlayAll layers)) := by
  rw [overlayAll, List.foldl_append, ← overlayAll]
  exact find?_overlay hlayer key _

/-! ## Layers over each other -/

/-- Layers over each other have the keys of all of them. -/
theorem has_overlayAll (hlayers : ∀ layer ∈ layers, Keyed.Sorted layer) (key : String) :
    Keyed.has key (overlayAll layers) = layers.any (Keyed.has key) := by
  induction layers using List.reverseRecOn with
  | nil => rfl
  | append_singleton layers layer ih =>
    obtain ⟨hbelow, hlayer⟩ := List.forall_mem_append.1 hlayers
    rw [List.any_append, ← ih hbelow, Keyed.has,
      find?_overlayAll_append (List.forall_mem_singleton.1 hlayer)]
    simp [Keyed.has, Bool.or_comm]

/-- Under most keys the value of the last layer counts that has one. -/
theorem find?_overlayAll_of_replaced (hlayers : ∀ layer ∈ layers, Keyed.Sorted layer)
    (hproperties : key ≠ propertiesKey) (hrequired : key ≠ requiredKey) :
    Keyed.find? key (overlayAll layers) = topmost? (Keyed.find? key) layers := by
  induction layers using List.reverseRecOn with
  | nil => rfl
  | append_singleton layers layer ih =>
    obtain ⟨hbelow, hlayer⟩ := List.forall_mem_append.1 hlayers
    rw [find?_overlayAll_append (List.forall_mem_singleton.1 hlayer), topmost?_append, ih hbelow]
    cases Keyed.find? key layer with
    | none => rfl
    | some t => rw [Option.map_some, combine_of_replaced hproperties hrequired]

/-- The values of a list joined to one, from the first to the last. -/
def joined (join : β → β → β) : List β → Option β
  | [] => none
  | first :: rest => some (rest.foldl join first)

/-- One value more. -/
theorem joined_append (join : β → β → β) (values : List β) (value : β) :
    joined join (values ++ [value]) =
      some (((joined join values).map fun below => join below value).getD value) := by
  cases values with
  | nil => rfl
  | cons first rest => simp [joined]

/-- Under a key whose values are joined, the values of all layers count. -/
theorem find?_overlayAll_of_joined {wrap : β → Tree} {join : β → β → β} {view : Fields → Option β}
    (hjoin : ∀ below above, combine key (some (wrap below)) (wrap above) = wrap (join below above))
    (hlayers : ∀ layer ∈ layers, Keyed.Sorted layer)
    (hview : ∀ layer ∈ layers, Keyed.find? key layer = (view layer).map wrap) :
    Keyed.find? key (overlayAll layers) = (joined join (layers.filterMap view)).map wrap := by
  induction layers using List.reverseRecOn with
  | nil => rfl
  | append_singleton layers layer ih =>
    obtain ⟨hbelow, hlayer⟩ := List.forall_mem_append.1 hlayers
    obtain ⟨hviews, hlast⟩ := List.forall_mem_append.1 hview
    rw [find?_overlayAll_append (List.forall_mem_singleton.1 hlayer), ih hbelow hviews,
      List.forall_mem_singleton.1 hlast, List.filterMap_append]
    cases hvalue : view layer with
    | none => simp [hvalue]
    | some value =>
      rw [List.filterMap_cons_some hvalue, List.filterMap_nil, joined_append]
      cases joined join (layers.filterMap view) with
      | none => simp [combine_none]
      | some below => simp [hjoin]

/-! ## Declared properties -/

/-- The properties of all layers together, where the last declaration of a name counts. -/
theorem find?_joined_declared
    (hdeclared : ∀ layer ∈ layers, ∀ declared, Fields.declared? layer = some declared →
      Keyed.Sorted declared) (name : String) :
    (joined Keyed.insertAll (layers.filterMap Fields.declared?)).bind (Keyed.find? name) =
      topmost? (declaration? name) layers := by
  induction layers using List.reverseRecOn with
  | nil => rfl
  | append_singleton layers layer ih =>
    obtain ⟨hbelow, hlast⟩ := List.forall_mem_append.1 hdeclared
    rw [topmost?_append, ← ih hbelow, List.filterMap_append, declaration?]
    cases hvalue : Fields.declared? layer with
    | none => simp [hvalue]
    | some declared =>
      have hsorted := List.forall_mem_singleton.1 hlast declared hvalue
      rw [List.filterMap_cons_some hvalue, List.filterMap_nil, joined_append]
      cases joined Keyed.insertAll (layers.filterMap Fields.declared?) with
      | none => simp
      | some below => simp [Keyed.find?_insertAll hsorted]

/-- The properties of layers over each other are those of all layers together. -/
theorem declared_overlayAll (hlayers : ∀ layer ∈ layers, Keyed.Sorted layer)
    (hmaps : DeclareMaps layers) :
    Keyed.find? propertiesKey (overlayAll layers) =
      (joined Keyed.insertAll (layers.filterMap Fields.declared?)).map .map :=
  find?_overlayAll_of_joined (fun _ _ => by simp [combine]) hlayers fun _ => hmaps.find?_eq

/-! ## Required names -/

/-- Lists joined one after the other are their items joined to the first one. -/
theorem foldl_joinItems (first : List Tree) (lists : List (List Tree)) :
    lists.foldl Tree.joinItems first = Tree.joinItems first lists.flatten := by
  induction lists generalizing first with
  | nil => rfl
  | cons items rest ih => rw [List.foldl_cons, ih, List.flatten_cons, Tree.joinItems_append]

/-- The names required by layers over each other are those of all layers joined. -/
theorem required_overlayAll (hlayers : ∀ layer ∈ layers, Keyed.Sorted layer)
    (hlists : RequireLists layers) :
    Keyed.find? requiredKey (overlayAll layers) =
      (joined Tree.joinItems (layers.filterMap Fields.required?)).map .seq :=
  find?_overlayAll_of_joined (fun _ _ => by simp [combine, requiredKey]) hlayers
    fun _ => hlists.find?_eq

/-- Lists joined from the first to the last have the values of all of them, and the same first
occurrences as the lists put behind each other. -/
theorem joined_joinItems {lists : List (List Tree)} {items : List Tree}
    (h : joined Tree.joinItems lists = some items) :
    (∀ v, items.any (·.same v) = lists.flatten.any (·.same v)) ∧
      Tree.distinct items = Tree.distinct lists.flatten := by
  cases lists with
  | nil => cases h
  | cons first rest =>
    obtain rfl := Option.some.inj h
    rw [foldl_joinItems, List.flatten_cons]
    refine ⟨fun v => ?_, Tree.distinct_joinItems _ _⟩
    rw [Tree.any_joinItems, List.any_append]

/-! ## The law of inheritance -/

/-- The fields of a map with everything it inherits, from its layers. -/
structure MergeLaw (document : Fields) (layers : List Fields) (merged : Fields) : Prop where
  /-- the bases are not listed any more -/
  baseless : Keyed.find? extendsKey merged = none
  /-- there are no other keys than those of the layers, and all of these -/
  keys : ∀ key, Keyed.has key merged = layers.any (Keyed.has key)
  /-- under most keys the last value counts -/
  replaced : ∀ key, key ≠ propertiesKey → key ≠ requiredKey →
    Keyed.find? key merged = topmost? (Keyed.find? key) layers
  /-- what identifies the map is its own -/
  identity : ∀ key ∈ identityKeys, Keyed.find? key merged = Keyed.find? key document
  /-- where all properties are in maps, they are together in one, and the last declaration of a
  name counts -/
  declared : DeclareMaps layers → ∀ t, Keyed.find? propertiesKey merged = some t →
    ∃ declared, t = .map declared ∧
      ∀ name, Keyed.find? name declared = topmost? (declaration? name) layers
  /-- where all required names are in lists, they are together in one, which has the same values
  as these lists, and first occurrences in their order -/
  required : RequireLists layers → ∀ t, Keyed.find? requiredKey merged = some t →
    ∃ items, t = .seq items ∧
      (∀ v : Tree, items.any (·.same v) = true ↔
        ∃ layer ∈ layers, ∃ list, Fields.required? layer = some list ∧
          list.any (·.same v) = true) ∧
      Tree.distinct items = Tree.distinct (layers.filterMap Fields.required?).flatten

/-- The layers of a map in order are in order. -/
theorem HasLayers.isOrdered (h : HasLayers document layers)
    (hordered : (Tree.map document).isOrdered = true) :
    ∀ layer ∈ layers, (Tree.map layer).isOrdered = true := by
  obtain ⟨bases, lower, hbases, hlower, rfl⟩ := h
  intro layer hlayer
  rcases List.mem_append.1 hlayer with hlayer | hlayer
  · obtain ⟨base, hbase, merged, hmerged, rfl⟩ := exists_of_mem_right hlower hlayer
    have hlisted := Tree.isOrdered_listed (Tree.isOrdered_find? hordered hbases) hbase
    exact Tree.isOrdered_filter (isOrdered_inherit hlisted hmerged) _
  · rw [List.mem_singleton.1 hlayer]
    exact Tree.isOrdered_filter hordered _

/-- The keys of each layer of a map in order are in order. -/
theorem HasLayers.sorted (h : HasLayers document layers)
    (hordered : (Tree.map document).isOrdered = true) : ∀ layer ∈ layers, Keyed.Sorted layer :=
  fun layer hlayer => (Tree.isOrdered_map.1 (h.isOrdered hordered layer hlayer)).1

/-- The properties that a layer in order declares are in order. -/
theorem sorted_declared? {declared : Fields} (h : (Tree.map layer).isOrdered = true)
    (hdeclared : Fields.declared? layer = some declared) : Keyed.Sorted declared := by
  rw [Fields.declared?] at hdeclared
  split at hdeclared
  · next hfound =>
    obtain rfl := Option.some.inj hdeclared
    exact (Tree.isOrdered_map.1 (Tree.isOrdered_find? h hfound)).1
  · cases hdeclared

/-- Nothing that was inherited lists bases. -/
theorem find?_extendsKey_inherit {merged : Fields} (h : t.inherit = .ok (.map merged)) :
    Keyed.find? extendsKey merged = none := by
  have hown : Descends (fun _ => True) fun e => e.1 ≠ extendsKey :=
    ⟨fun _ _ _ h _ => h, fun _ _ _ _ hkey => hkey, fun _ _ _ _ _ _ => trivial⟩
  cases t with
  | map fields =>
    obtain ⟨found, hfound, hkeys⟩ := forall_inherit hown trivial h
    obtain rfl := Tree.map.inj hfound
    exact Keyed.find?_eq_none_iff.2 hkeys
  | _ => cases h

/-- What is found in a map without what identifies it. -/
theorem find?_anonymous (key : String) (fields : Fields) :
    Keyed.find? key (anonymous fields) =
      if key ∈ identityKeys then none else Keyed.find? key fields := by
  rw [anonymous, Keyed.find?_filter fun k => !identityKeys.contains k]
  by_cases hkey : key ∈ identityKeys <;> simp [hkey]

/-- What identifies a map is no list of bases, and it is not joined either. -/
theorem ne_of_mem_identityKeys (hkey : key ∈ identityKeys) :
    key ≠ extendsKey ∧ key ≠ propertiesKey ∧ key ≠ requiredKey := by
  have hall : ∀ key ∈ identityKeys,
      key ≠ extendsKey ∧ key ≠ propertiesKey ∧ key ≠ requiredKey := by decide
  exact hall key hkey

/-- What identifies a map comes from the map itself. -/
theorem topmost?_identity (h : HasLayers document layers) (hkey : key ∈ identityKeys) :
    topmost? (Keyed.find? key) layers = Keyed.find? key document := by
  obtain ⟨bases, lower, -, hlower, rfl⟩ := h
  have hbelow : ∀ layer ∈ lower, Keyed.find? key layer = none := by
    intro layer hlayer
    obtain ⟨base, -, merged, -, rfl⟩ := exists_of_mem_right hlower hlayer
    rw [find?_anonymous, if_pos hkey]
  have hne : (key != extendsKey) = true := bne_iff_ne.2 (ne_of_mem_identityKeys hkey).1
  rw [topmost?_append, topmost?_eq_none hbelow, Option.or_none, Keyed.erase,
    Keyed.find?_filter fun k => k != extendsKey, if_pos hne]

/-- A map in order that inherits obeys the law of inheritance. -/
theorem HasLayers.mergeLaw (h : HasLayers document layers) {merged : Fields}
    (hordered : (Tree.map document).isOrdered = true)
    (hmerged : (Tree.map document).inherit = .ok (.map merged)) :
    MergeLaw document layers merged := by
  obtain rfl := Tree.map.inj (inherit_of_hasLayers h hmerged)
  have hsorted := h.sorted hordered
  have hreplaced : ∀ key, key ≠ propertiesKey → key ≠ requiredKey →
      Keyed.find? key (overlayAll layers) = topmost? (Keyed.find? key) layers :=
    fun _ => find?_overlayAll_of_replaced hsorted
  refine ⟨find?_extendsKey_inherit hmerged, has_overlayAll hsorted, hreplaced, ?_, ?_, ?_⟩
  · intro key hkey
    obtain ⟨-, hproperties, hrequired⟩ := ne_of_mem_identityKeys hkey
    rw [hreplaced key hproperties hrequired, topmost?_identity h hkey]
  · intro hmaps t ht
    rw [declared_overlayAll hsorted hmaps] at ht
    obtain ⟨declared, hdeclared, rfl⟩ := Option.map_eq_some_iff.1 ht
    refine ⟨declared, rfl, fun name => ?_⟩
    have hname := find?_joined_declared
      (fun layer hlayer _ => sorted_declared? (h.isOrdered hordered layer hlayer)) name
    rwa [hdeclared, Option.bind_some] at hname
  · intro hlists t ht
    rw [required_overlayAll hsorted hlists] at ht
    obtain ⟨items, hitems, rfl⟩ := Option.map_eq_some_iff.1 ht
    obtain ⟨hany, hdistinct⟩ := joined_joinItems hitems
    refine ⟨items, rfl, fun v => ?_, hdistinct⟩
    rw [hany, List.any_flatten, List.any_filterMap, List.any_eq_true]
    refine exists_congr fun layer => and_congr_right fun _ => ?_
    cases Fields.required? layer <;> simp

/-- The law of inheritance. A map in order with a list of bases cannot inherit just if one of its
bases, at any depth, is a marker or no map. If it inherits, it becomes a map that obeys the law for
its layers: those of its bases in turn, each with everything that it inherits itself and without
what identifies it, and then the map without the list of its bases. -/
theorem inherit_merges (document : Fields) (hordered : (Tree.map document).isOrdered = true)
    (hheir : Keyed.has extendsKey document = true) :
    ((∃ fault, (Tree.map document).inherit = .error fault) ↔
      ∃ base : Tree, base.BaseOf (.map document) ∧ base.fault?.isSome = true) ∧
    ∀ t, (Tree.map document).inherit = .ok t →
      ∃ layers merged, HasLayers document layers ∧ t = .map merged ∧
        MergeLaw document layers merged := by
  refine ⟨inherit_fails_iff, fun t ht => ?_⟩
  obtain ⟨layers, hlayers, rfl⟩ := exists_hasLayers hheir ht
  exact ⟨layers, overlayAll layers, hlayers, rfl, hlayers.mergeLaw hordered ht⟩

/-! ## A cat -/

/-- An animal has a name, which has to be given, and an age. -/
def animalSchema : Fields :=
  [("properties", .map [("age", .map [("type", .str "number")]), ("name", .map [])]),
    ("required", .seq [.str "name"]), ("title", .str "Animal")]

/-- A cat is an animal, and it is tame: its name and its age, an integer, have to be given. -/
def catSchema : Fields :=
  [("extends", .seq [.map [("extends", .map animalSchema), ("type", .str "object")],
      .map [("properties", .map [("age", .map [("type", .str "integer")])]),
        ("required", .seq [.str "age", .str "name"])]]),
    ("title", .str "Cat")]

/-- The schema of cats with everything it inherits. -/
def catMerged : Fields :=
  [("properties", .map [("age", .map [("type", .str "integer")]), ("name", .map [])]),
    ("required", .seq [.str "name", .str "age"]), ("title", .str "Cat"), ("type", .str "object")]

/-- The schema of cats inherits by the law. -/
theorem inherit_catSchema_merges :
    (Tree.map catSchema).isOrdered = true ∧ Keyed.has extendsKey catSchema = true ∧
      (Tree.map catSchema).inherit = .ok (.map catMerged) ∧
      ∃ layers, HasLayers catSchema layers ∧ MergeLaw catSchema layers catMerged := by
  have hordered : (Tree.map catSchema).isOrdered = true := by decide +kernel
  have hheir : Keyed.has extendsKey catSchema = true := by decide
  have hinherit : (Tree.map catSchema).inherit = .ok (.map catMerged) := by decide +kernel
  obtain ⟨-, hmerges⟩ := inherit_merges catSchema hordered hheir
  obtain ⟨layers, merged, hlayers, hmerged, hlaw⟩ := hmerges _ hinherit
  obtain rfl := Tree.map.inj hmerged
  exact ⟨hordered, hheir, hinherit, layers, hlayers, hlaw⟩

end EventSchema
