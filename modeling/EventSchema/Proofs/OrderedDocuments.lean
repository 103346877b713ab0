import EventSchema.Proofs.Expansion
import EventSchema.Proofs.MergedLayers

/-!
# Documents in order

Every document that is read is a tree in order, and stays one until it has inherited.

* `Markup.Json.State.Ordered` — what holds of the containers that are open while JSON is read: each
  token keeps it (`Ordered.feed?`), and so do all tokens of a text (`isOrdered_parseWithin?`);
* `Markup.Yaml.isOrdered_tree` — the tree of a YAML value;
* `Markup.isOrdered_parse` — so the tree of a document is in order, whatever its text;
* `Tree.isOrdered_rewriteReferences`, `Tree.isOrdered_substitute` — replacing markers keeps order;
* `Library.content_merges` — so the content of every document obeys the law of inheritance.
-/

namespace EventSchema

/-! ## JSON -/

namespace Markup.Json

variable {limit : Nat} {s s' : State} {t : Token} {o o' : Open} {outer : List Open}
  {result : Option Tree} {value : Tree} {tokens : List Token}

/-- What an open container holds so far, as a tree. -/
def Open.held : Open → Tree
  | seqItem items _ => .seq items
  | seqAfter items => .seq items
  | mapKey fields _ => .map fields
  | mapColon fields _ => .map fields
  | mapValue fields _ => .map fields
  | mapAfter fields => .map fields

/-- Everything that was read so far is in order. -/
structure State.Ordered (s : State) : Prop where
  held : ∀ o ∈ s.stack, o.held.isOrdered = true
  result : ∀ t, s.result = some t → t.isOrdered = true

/-- The value of a token, if it has one, is in order. -/
def Token.Ordered (t : Token) : Prop := ∀ value, t = .scalar value → value.isOrdered = true

/-- Another container takes the place of the innermost one. -/
theorem State.Ordered.replace (h : State.Ordered ⟨o :: outer, result⟩)
    (ho : o.held.isOrdered = true → o'.held.isOrdered = true) :
    State.Ordered ⟨o' :: outer, result⟩ := by
  obtain ⟨hinner, houter⟩ := List.forall_mem_cons.1 h.held
  exact ⟨List.forall_mem_cons.2 ⟨ho hinner, houter⟩, h.result⟩

/-- The innermost container is closed. -/
theorem State.Ordered.close (h : State.Ordered ⟨o :: outer, result⟩) :
    State.Ordered ⟨outer, result⟩ ∧ o.held.isOrdered = true := by
  obtain ⟨hinner, houter⟩ := List.forall_mem_cons.1 h.held
  exact ⟨⟨houter, h.result⟩, hinner⟩

/-- A value in order is put where it belongs. -/
theorem State.Ordered.complete? (h : s.Ordered) (hvalue : value.isOrdered = true)
    (hs' : s.complete? value = some s') : s'.Ordered := by
  obtain ⟨stack, result⟩ := s
  unfold State.complete? at hs'
  dsimp only at hs'
  split at hs'
  · split at hs'
    · obtain rfl := Option.some.inj hs'
      exact ⟨nofun, fun t ht => Option.some.inj ht ▸ hvalue⟩
    · cases hs'
  · obtain rfl := Option.some.inj hs'
    refine h.replace fun hitems => Tree.isOrdered_seq.2 ?_
    exact List.forall_mem_cons.2 ⟨hvalue, Tree.isOrdered_seq.1 hitems⟩
  · obtain rfl := Option.some.inj hs'
    exact h.replace fun hfields => Tree.isOrdered_insert hfields hvalue _
  · -- the value is a key
    split at hs'
    · obtain rfl := Option.some.inj hs'
      exact h.replace id
    · cases hs'
  · cases hs'

/-- An empty container is opened. -/
theorem State.Ordered.enter? (h : s.Ordered) (ho : o.held.isOrdered = true)
    (hs' : s.enter? limit o = some s') : s'.Ordered := by
  unfold State.enter? at hs'
  split at hs'
  · obtain rfl := Option.some.inj hs'
    exact ⟨List.forall_mem_cons.2 ⟨ho, h.held⟩, h.result⟩
  · cases hs'

/-- One token more keeps everything in order. -/
theorem State.Ordered.feed? (h : s.Ordered) (ht : t.Ordered) (hs' : s.feed? limit t = some s') :
    s'.Ordered := by
  obtain ⟨stack, result⟩ := s
  unfold State.feed? at hs'
  dsimp only at hs'
  split at hs'
  · exact h.enter? rfl hs'
  · exact h.enter? rfl hs'
  · exact h.close.1.complete? rfl hs'
  · obtain ⟨houter, hitems⟩ := h.close
    refine houter.complete? (Tree.isOrdered_seq.2 fun t ht => ?_) hs'
    exact Tree.isOrdered_seq.1 hitems t (List.mem_reverse.1 ht)
  · exact h.close.1.complete? rfl hs'
  · exact h.close.1.complete? h.close.2 hs'
  · obtain rfl := Option.some.inj hs'
    exact h.replace id
  · obtain rfl := Option.some.inj hs'
    exact h.replace id
  · obtain rfl := Option.some.inj hs'
    exact h.replace id
  · exact h.complete? (ht _ rfl) hs'
  · cases hs'

/-- All tokens of a text keep everything in order. -/
theorem State.Ordered.feedAll (h : s.Ordered) (htokens : ∀ t ∈ tokens, t.Ordered)
    (hs' : tokens.foldlM (State.feed? limit) s = some s') : s'.Ordered := by
  induction tokens generalizing s with
  | nil => exact Option.some.inj hs' ▸ h
  | cons t rest ih =>
    rw [List.foldlM_cons] at hs'
    obtain ⟨s₁, hs₁, hrest⟩ := Option.bind_eq_some_iff.1 hs'
    obtain ⟨ht, htokens⟩ := List.forall_mem_cons.1 htokens
    exact ih (h.feed? ht hs₁) htokens hrest

/-- No token has a value that is out of order. -/
theorem ordered_of_token? {cs rest : List Char} (h : token? cs = some (t, rest)) : t.Ordered := by
  intro value hvalue
  subst hvalue
  unfold token? at h
  -- a string, a word or a number holds nothing that could be out of order
  split at h <;> simp [Option.bind_eq_some_iff] at h <;> grind [Tree.isOrdered]

/-- The tokens of a text are in order if those found before are. -/
theorem ordered_of_tokensAfter? {steps : Nat} {cs : List Char} {found : List Token}
    (hfound : ∀ t ∈ found, t.Ordered) (h : tokensAfter? steps cs found = some tokens) :
    ∀ t ∈ tokens, t.Ordered := by
  induction steps generalizing cs found with
  | zero =>
    cases cs with
    | nil =>
      obtain rfl := Option.some.inj h
      exact fun t ht => hfound t (List.mem_reverse.1 ht)
    | cons c rest => cases h
  | succ steps ih =>
    cases cs with
    | nil =>
      obtain rfl := Option.some.inj h
      exact fun t ht => hfound t (List.mem_reverse.1 ht)
    | cons c rest =>
      rw [tokensAfter?] at h
      split at h
      · exact ih hfound h
      · split at h
        · cases h
        · next t rest ht =>
          exact ih (List.forall_mem_cons.2 ⟨ordered_of_token? ht, hfound⟩) h

/-- What a JSON text spells is in order. -/
theorem isOrdered_parseWithin? {text : String} {tree : Tree}
    (h : parseWithin? limit text = some tree) : tree.isOrdered = true := by
  unfold parseWithin? at h
  obtain ⟨tokens, htokens, h⟩ := Option.bind_eq_some_iff.1 h
  obtain ⟨s, hs, h⟩ := Option.bind_eq_some_iff.1 h
  have hstart : State.Ordered ⟨[], none⟩ := ⟨nofun, nofun⟩
  have hordered := hstart.feedAll (ordered_of_tokensAfter? (List.forall_mem_nil _) htokens) hs
  split at h
  · exact hordered.result tree h
  · cases h

end Markup.Json

/-! ## YAML -/

namespace Markup.Yaml

open Value

mutual

/-- The tree that a value is. -/
theorem isOrdered_tree (v : Value) {t : Tree} (h : v.tree = .ok t) : t.isOrdered = true := by
  cases v with
  | seq items =>
    obtain ⟨ts, hts, h⟩ := bind_eq_ok_iff.1 h
    exact Except.ok.inj h ▸ Tree.isOrdered_seq.2 (isOrdered_trees items hts)
  | map entries =>
    obtain ⟨found, hfound, h⟩ := bind_eq_ok_iff.1 h
    have hnone : (Tree.map []).isOrdered = true := rfl
    exact Except.ok.inj h ▸ isOrdered_fields entries hnone hfound
  | tagged tag value => exact isOrdered_tree value h
  | real x =>
    cases x with
    | finite x =>
      obtain rfl := Except.ok.inj h
      rfl
    | _ => cases h
  | _ =>
    obtain rfl := Except.ok.inj h
    rfl
termination_by structural v

/-- The trees of the items of a sequence. -/
theorem isOrdered_trees (vs : List Value) {ts : List Tree} (h : trees vs = .ok ts) :
    ∀ t ∈ ts, t.isOrdered = true := by
  cases vs with
  | nil =>
    obtain rfl := Except.ok.inj h
    exact List.forall_mem_nil _
  | cons v rest =>
    obtain ⟨t, ht, h⟩ := bind_eq_ok_iff.1 h
    obtain ⟨found, hfound, h⟩ := bind_eq_ok_iff.1 h
    obtain rfl := Except.ok.inj h
    exact List.forall_mem_cons.2 ⟨isOrdered_tree v ht, isOrdered_trees rest hfound⟩
termination_by structural vs

/-- The fields of a map, where those before them are in order. -/
theorem isOrdered_fields (entries : List (Value × Value)) {before after : Fields}
    (hbefore : (Tree.map before).isOrdered = true)
    (h : Value.fields before entries = .ok after) : (Tree.map after).isOrdered = true := by
  cases entries with
  | nil => exact Except.ok.inj h ▸ hbefore
  | cons e rest =>
    obtain ⟨k, v⟩ := e
    rw [Value.fields] at h
    split at h
    · cases h
    · next key _ =>
      obtain ⟨t, ht, h⟩ := bind_eq_ok_iff.1 h
      exact isOrdered_fields rest (Tree.isOrdered_insert hbefore (isOrdered_tree v ht) key) h
termination_by structural entries

end

end Markup.Yaml

/-- Whatever its text is, a document is read as a tree in order. -/
theorem Markup.isOrdered_parse {format : Format} {text : String} {t : Tree}
    (h : Markup.parse format text = .ok t) : t.isOrdered = true := by
  unfold Markup.parse at h
  split at h
  · split at h
    · next hparse => exact Except.ok.inj h ▸ Json.isOrdered_parseWithin? hparse
    · cases h
  · split at h
    · exact Yaml.isOrdered_tree _ (mapError_eq_ok_iff.1 h)
    · cases h

/-! ## Replacing markers -/

namespace Tree

variable {f : String → String} {content? : String → Option Tree}

/-- Rewriting targets keeps the keys of a map. -/
theorem keys_rewriteFields (f : String → String) (fields : Fields) :
    Keyed.keys (rewriteFields f fields) = Keyed.keys fields := by
  induction fields with
  | nil => rfl
  | cons e rest ih => exact congrArg (e.1 :: ·) ih

/-- Replacing markers keeps the keys of a map. -/
theorem keys_substituteFields (content? : String → Option Tree) (fields : Fields) :
    Keyed.keys (substituteFields content? fields) = Keyed.keys fields := by
  induction fields with
  | nil => rfl
  | cons e rest ih => exact congrArg (e.1 :: ·) ih

/-- Rewriting targets keeps a tree in order. -/
theorem isOrdered_rewriteReferences (t : Tree) (h : t.isOrdered = true) :
    (t.rewriteReferences f).isOrdered = true := by
  induction t using Tree.byParts with
  | seq items ih =>
    rw [rewriteReferences, rewriteItems_eq, isOrdered_seq, List.forall_mem_map]
    exact fun t ht => ih t ht (isOrdered_seq.1 h t ht)
  | map fields ih =>
    obtain ⟨hsorted, hvalues⟩ := isOrdered_map.1 h
    refine isOrdered_map.2 ⟨?_, ?_⟩
    · rwa [Keyed.Sorted, keys_rewriteFields]
    · rw [rewriteFields_eq, List.forall_mem_map]
      intro e he
      cases htarget : targetOf? e.1 e.2 with
      | some target => rfl
      | none => exact ih e he (hvalues e he)
  | _ => rfl

/-- A tree in order stays so where its markers are replaced by trees in order. -/
theorem isOrdered_substitute (hcontents : ∀ r u, content? r = some u → u.isOrdered = true)
    (t : Tree) (h : t.isOrdered = true) : (t.substitute content?).isOrdered = true := by
  induction t using Tree.byParts with
  | seq items ih =>
    rw [substitute, substituteItems_eq, isOrdered_seq, List.forall_mem_map]
    exact fun t ht => ih t ht (isOrdered_seq.1 h t ht)
  | map fields ih =>
    obtain ⟨hsorted, hvalues⟩ := isOrdered_map.1 h
    rw [substitute]
    split
    · next u hu =>
      obtain ⟨r, -, hr⟩ := Option.bind_eq_some_iff.1 hu
      exact hcontents r u hr
    · refine isOrdered_map.2 ⟨?_, ?_⟩
      · rwa [Keyed.Sorted, keys_substituteFields]
      · rw [substituteFields_eq, List.forall_mem_map]
        exact fun e he => ih e he (hvalues e he)
  | _ => rfl

end Tree

/-! ## Contents -/

namespace Library

variable {lib : Library} {p : DocumentPath} {t raw : Tree} {n : Nat}

/-- The tree of a document is in order. -/
theorem isOrdered_parse (h : lib.parse p = .ok raw) : raw.isOrdered = true := by
  obtain ⟨-, text, -, htext⟩ := parse_eq_ok_iff.1 h
  exact Markup.isOrdered_parse htext

/-- A document with its markers replaced by contents in order is in order. -/
theorem isOrdered_located (h : lib.parse p = .ok raw)
    (hcontents : ∀ q u, lib.inlined n q = some u → u.isOrdered = true) :
    ((located p raw).substitute (lib.inlinedAt n)).isOrdered = true := by
  refine Tree.isOrdered_substitute (fun r u hu => ?_) _
    (Tree.isOrdered_rewriteReferences raw (isOrdered_parse h))
  obtain ⟨q, -, hq⟩ := Option.bind_eq_some_iff.1 hu
  exact hcontents q u hq

/-- Every content is in order. -/
theorem isOrdered_inlined (h : lib.inlined n p = some t) : t.isOrdered = true := by
  induction n generalizing p t with
  | zero => cases h
  | succ n ih =>
    obtain ⟨raw, hraw, -, hinherit⟩ := inlined_succ_eq_some_iff.1 h
    exact isOrdered_inherit (isOrdered_located hraw fun q u hq => ih hq) hinherit

/-- The content of a document that inherits obeys the law of inheritance: it comes from the document
with its markers replaced by the contents that they stand for, and its layers. -/
theorem content_merges {document : Fields} (hraw : lib.parse p = .ok raw)
    (hdocument : (located p raw).substitute (lib.inlinedAt n) = .map document)
    (hheir : Keyed.has extendsKey document = true) (h : lib.inlined (n + 1) p = some t) :
    ∃ layers merged, HasLayers document layers ∧ t = .map merged ∧
      MergeLaw document layers merged := by
  have hordered := isOrdered_located hraw fun q u (hq : lib.inlined n q = some u) =>
    isOrdered_inlined hq
  obtain ⟨raw', hraw', -, hinherit⟩ := inlined_succ_eq_some_iff.1 h
  obtain rfl := Except.ok.inj (hraw.symm.trans hraw')
  rw [hdocument] at hordered hinherit
  obtain ⟨layers, hlayers, rfl⟩ := exists_hasLayers hheir hinherit
  exact ⟨layers, _, hlayers, rfl, hlayers.mergeLaw hordered hinherit⟩

end Library

end EventSchema
