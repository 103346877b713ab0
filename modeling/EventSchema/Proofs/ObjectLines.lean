import EventSchema.Proofs.WrittenMembers

/-!
# The lines of written object types

The members of an object type stand on lines of their own, each after its comment, and the closing
brace stands at a smaller indent than they do.

* `Entry`, `entries` — the lines, of which the last may be for the other keys;
* `entry_cancel` — a line can be told from what follows it if its type can, but for its comment;
* `entry_ne_brace` — no line can be taken for the closing brace;
* `object_cancel` — so an object type can be told from what follows it.
-/

namespace EventSchema.TypeScript

open TypeExpr

variable {indent : Nat} {rest rest' : List Char}

/-! ## Object types -/

/-- A line of an object type: its property, unless it is the line for the other keys, and the
type. -/
structure Entry where
  member? : Option Member
  type : TypeExpr

/-- The lines of an object type. -/
def entries (properties : List (Member × TypeExpr)) (index : Option TypeExpr) : List Entry :=
  properties.map (fun p => ⟨some p.1, p.2⟩) ++ index.toList.map (fun t => ⟨none, t⟩)

namespace Entry

/-- The key of a line. -/
def key (e : Entry) : List Char := e.member?.elim indexKey Member.key

/-- The comment in front of a line. -/
def comment (indent : Nat) (e : Entry) : List Char := e.member?.elim [] (Member.comment indent)

/-- A line with its comment. -/
def text (indent : Nat) (e : Entry) : List Char :=
  e.comment indent ++ memberLine indent e.key (render indent e.type)

/-- A line without comments. -/
def eraseDocs (e : Entry) : Entry := ⟨e.member?.map Member.eraseDoc, e.type.eraseDocs⟩

end Entry

variable {properties properties' : List (Member × TypeExpr)} {index index' : Option TypeExpr}

/-- The lines of an object type as they are written. -/
theorem renderMembers_eq (indent : Nat) (properties : List (Member × TypeExpr))
    (index : Option TypeExpr) :
    renderMembers indent properties index =
      (entries properties index).flatMap (Entry.text indent) := by
  rw [renderMembers]
  induction properties with
  | nil =>
    cases index with
    | none => rfl
    | some t => simp [entries, renderProperties, renderIndex, Entry.text, Entry.comment, Entry.key]
  | cons p properties ih =>
    rw [renderProperties, List.append_assoc, ih]
    simp [entries, Entry.text, Entry.comment, Entry.key]

/-- An object type is given by its lines. -/
theorem entries_inj (h : entries properties index = entries properties' index') :
    properties = properties' ∧ index = index' := by
  induction properties generalizing properties' with
  | nil =>
    cases properties' with
    | nil => cases index <;> cases index' <;> simp_all [entries]
    | cons p' properties' => cases index <;> simp [entries] at h
  | cons p properties ih =>
    cases properties' with
    | nil => cases index' <;> simp [entries] at h
    | cons p' properties' =>
      simp only [entries, List.map_cons, List.cons_append, List.cons.injEq, Entry.mk.injEq,
        Option.some.injEq] at h
      obtain ⟨⟨hmember, htype⟩, htail⟩ := h
      obtain ⟨hproperties, hindex⟩ := ih htail
      exact ⟨by rw [Prod.ext hmember htype, hproperties], hindex⟩

/-- The lines of an object type without comments. -/
theorem entries_eraseDocs (properties : List (Member × TypeExpr)) (index : Option TypeExpr) :
    entries (eraseProperties properties) (eraseIndex index) =
      (entries properties index).map Entry.eraseDocs := by
  induction properties with
  | nil => cases index <;> rfl
  | cons p properties ih =>
    simp only [entries, List.map_cons, List.cons_append, eraseProperties] at ih ⊢
    rw [ih]
    rfl

/-- What holds of the types of the properties and of the other keys holds of the types of all
lines. -/
theorem forall_entries {P : TypeExpr → Prop} (hproperties : ∀ p ∈ properties, P p.2)
    (hindex : ∀ other, index = some other → P other) :
    ∀ e ∈ entries properties index, P e.type := by
  intro e he
  rcases List.mem_append.1 he with he | he
  · obtain ⟨p, hp, rfl⟩ := List.mem_map.1 he
    exact hproperties p hp
  · obtain ⟨other, hother, rfl⟩ := List.mem_map.1 he
    exact hindex other (Option.mem_toList.1 hother)

/-- A line has a comment or none. -/
theorem isComment_entry (indent : Nat) (e : Entry) : IsComment indent (e.comment indent) := by
  rcases e with ⟨_ | m, type⟩
  · exact .inl rfl
  · exact isComment_comment indent m

/-- The key of a line does not start like a comment. -/
theorem head?_key_ne (e : Entry) : (e.key ++ rest).head? ≠ some '/' := by
  rcases e with ⟨_ | m, type⟩
  · rw [Entry.key]
    exact (by decide : some '[' ≠ some '/')
  · obtain ⟨c, tail, hkey, hc⟩ := key_eq_cons m
    have hslash : c ≠ '/' := by
      rintro rfl
      exact absurd hc (by decide)
    simp [Entry.key, hkey, hslash]

/-- The keys of two lines that start one text are those of one property, apart from its comment, or
those of the other keys. -/
theorem entryKey_cancel {e e' : Entry} (h : e.key ++ ':' :: rest = e'.key ++ ':' :: rest') :
    e.member?.map Member.eraseDoc = e'.member?.map Member.eraseDoc ∧ rest = rest' := by
  have hother : ∀ (m : Member) (rest rest' : List Char),
      m.key ++ ':' :: rest ≠ indexKey ++ ':' :: rest' := by
    intro m rest rest' h
    obtain ⟨c, tail, hkey, hc⟩ := key_eq_cons m
    rw [hkey] at h
    cases (List.cons.inj h).1
    exact absurd hc (by decide)
  rcases e with ⟨_ | m, type⟩
  · rcases e' with ⟨_ | m', type'⟩
    · exact ⟨rfl, (List.cons.inj (List.append_cancel_left h)).2⟩
    · exact absurd h.symm (hother m' rest' rest)
  · rcases e' with ⟨_ | m', type'⟩
    · exact absurd h (hother m rest rest')
    · obtain ⟨hname, hoptional, hrests⟩ := key_cancel h
      exact ⟨by simp [Member.eraseDoc, hname, hoptional], hrests⟩

/-- Two lines that start one text are the same without comments, and so is what follows them. -/
theorem entry_cancel {e e' : Entry} (he : LegibleType e.type) (he' : e'.type.IsNormal)
    (h : e.text indent ++ rest = e'.text indent ++ rest') :
    e.eraseDocs = e'.eraseDocs ∧ rest = rest' := by
  have hends : ∀ rest, EndsType (";\n".toList ++ rest) := fun rest =>
    endsType_cons (by decide) ('\n' :: rest)
  have hcolon : ∀ x, ": ".toList ++ x = ':' :: ' ' :: x := fun _ => rfl
  simp only [Entry.text, memberLine, List.append_assoc, hcolon] at h
  have hline := comment_cancel (isComment_entry indent e) (isComment_entry indent e')
    (head?_key_ne e) (head?_key_ne e') h
  obtain ⟨hkey, htype⟩ := entryKey_cancel hline
  obtain ⟨herased, hrests⟩ := he indent e'.type he' _ _ (hends rest) (hends rest')
    (List.cons.inj htype).2
  exact ⟨by rw [Entry.eraseDocs, Entry.eraseDocs, hkey, herased],
    List.append_cancel_left hrests⟩

/-- A level more in front of a line is two blanks more. -/
theorem pad_succ (indent : Nat) : pad (indent + 1) = pad indent ++ [' ', ' '] := by
  rw [pad, pad, Nat.mul_succ, List.replicate_add]
  rfl

/-- No line of an object type stands at the indent of the closing brace. -/
theorem entry_ne_brace {e : Entry} :
    e.text (indent + 1) ++ rest ≠ pad indent ++ '\x7d' :: rest' := by
  have hblank : ∃ tail, e.text (indent + 1) ++ rest = pad indent ++ ' ' :: tail := by
    rw [Entry.text, memberLine]
    rcases isComment_entry (indent + 1) e with h | ⟨body, -, h⟩
    · rw [h, pad_succ]
      exact ⟨_, by simp only [List.nil_append, List.append_assoc, List.cons_append]; rfl⟩
    · rw [h, pad_succ]
      exact ⟨_, by simp only [List.append_assoc, List.cons_append]; rfl⟩
  obtain ⟨tail, htail⟩ := hblank
  rw [htail]
  intro h
  have hbrace : ' ' = '\x7d' := (List.cons.inj (List.append_cancel_left h)).1
  exact absurd hbrace (by decide)

/-- The lines of two object types that start one text are the same without comments. -/
theorem entries_cancel {es es' : List Entry} (hes : ∀ e ∈ es, LegibleType e.type)
    (hes' : ∀ e ∈ es', e.type.IsNormal)
    (h : es.flatMap (Entry.text (indent + 1)) ++ (pad indent ++ '\x7d' :: rest) =
      es'.flatMap (Entry.text (indent + 1)) ++ (pad indent ++ '\x7d' :: rest')) :
    es.map Entry.eraseDocs = es'.map Entry.eraseDocs ∧ rest = rest' := by
  induction es generalizing es' with
  | nil =>
    cases es' with
    | nil => exact ⟨rfl, (List.cons.inj (List.append_cancel_left h)).2⟩
    | cons e' es' =>
      rw [List.flatMap_nil, List.nil_append, List.flatMap_cons, List.append_assoc] at h
      exact absurd h.symm entry_ne_brace
  | cons e es ih =>
    cases es' with
    | nil =>
      rw [List.flatMap_nil, List.nil_append, List.flatMap_cons, List.append_assoc] at h
      exact absurd h entry_ne_brace
    | cons e' es' =>
      rw [List.flatMap_cons, List.flatMap_cons, List.append_assoc, List.append_assoc] at h
      obtain ⟨hfirst, hlater⟩ := entry_cancel (hes e List.mem_cons_self)
        (hes' e' List.mem_cons_self) h
      obtain ⟨hothers, hrests⟩ := ih (fun e he => hes e (List.mem_cons_of_mem _ he))
        (fun e he => hes' e (List.mem_cons_of_mem _ he)) hlater
      exact ⟨by rw [List.map_cons, List.map_cons, hfirst, hothers], hrests⟩

/-- An object type is written as its lines between two braces. -/
theorem render_object :
    render indent (.object properties index) =
      if properties.isEmpty && index.isNone then "\x7b\x7d".toList
      else "\x7b\n".toList ++ (entries properties index).flatMap (Entry.text (indent + 1)) ++
        pad indent ++ ['\x7d'] := by
  rw [← renderMembers_eq, renderMembers, ← List.append_assoc "\x7b\n".toList]
  rfl

/-- Two object types that start one text are the same without comments. -/
theorem object_cancel (hes : ∀ e ∈ entries properties index, LegibleType e.type)
    (hes' : ∀ e ∈ entries properties' index', e.type.IsNormal)
    (h : render indent (.object properties index) ++ rest =
      render indent (.object properties' index') ++ rest') :
    (TypeExpr.object properties index).eraseDocs = (TypeExpr.object properties' index').eraseDocs ∧
      rest = rest' := by
  have hempty : ∀ {properties : List (Member × TypeExpr)} {index : Option TypeExpr},
      (properties.isEmpty && index.isNone) = true → properties = [] ∧ index = none := by
    intro properties index h
    simpa using h
  rw [render_object, render_object] at h
  split at h
  · next hnone =>
    obtain ⟨rfl, rfl⟩ := hempty hnone
    split at h
    · next hnone' =>
      obtain ⟨rfl, rfl⟩ := hempty hnone'
      exact ⟨rfl, List.append_cancel_left h⟩
    · have hline : '\x7d' = '\n' := (List.cons.inj (List.cons.inj h).2).1
      exact absurd hline (by decide)
  · split at h
    · have hline : '\n' = '\x7d' := (List.cons.inj (List.cons.inj h).2).1
      exact absurd hline (by decide)
    · simp only [List.append_assoc, List.append_cancel_left_eq] at h
      obtain ⟨herased, hrests⟩ := entries_cancel hes hes' h
      rw [← entries_eraseDocs, ← entries_eraseDocs] at herased
      obtain ⟨hproperties, hindex⟩ := entries_inj herased
      exact ⟨by rw [eraseDocs, eraseDocs, hproperties, hindex], hrests⟩

end EventSchema.TypeScript
