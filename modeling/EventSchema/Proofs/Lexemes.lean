import EventSchema.Proofs.Comments
import EventSchema.Proofs.Inhabitation
import EventSchema.Proofs.QuotedText
import EventSchema.TypeScript.Type.Printer

/-!
# The smallest parts of a written type

The parts that a type is written with can be told from what follows them: of two texts that are the
same and start with such parts, the parts are the same and so is what follows.

* `word_cancel` — words, which end before the first character of another kind;
* `Atom.cancel` — words and texts between quotes;
* `literal_cancel` — so the literals;
* `key_cancel` — the keys of properties, bare or quoted, with and without a question mark;
* `comment_cancel` — comments, of which nothing is seen but what follows them.
-/

namespace EventSchema.TypeScript

open Text

variable {rest rest' : List Char}

/-! ## Words -/

/-- Whether a text is over or goes on with a character that does not belong to a word. -/
def StopsWord (p : Char → Bool) (rest : List Char) : Prop := ∀ c ∈ rest.head?, p c = false

/-- A text goes on with a word up to the first character that does not belong to it. -/
theorem takeWhile_word {p : Char → Bool} {word : List Char} (hword : word.all p = true)
    (hrest : StopsWord p rest) : (word ++ rest).takeWhile p = word := by
  rw [List.takeWhile_append_of_pos (List.all_eq_true.1 hword)]
  cases rest with
  | nil => rw [List.takeWhile_nil, List.append_nil]
  | cons c rest => simp [hrest c rfl]

/-- Two words that start one text are the same, and so is what follows them. -/
theorem word_cancel {p : Char → Bool} {word word' : List Char} (hword : word.all p = true)
    (hword' : word'.all p = true) (hrest : StopsWord p rest) (hrest' : StopsWord p rest')
    (h : word ++ rest = word' ++ rest') : word = word' ∧ rest = rest' := by
  have hsame := congrArg (List.takeWhile p) h
  rw [takeWhile_word hword hrest, takeWhile_word hword' hrest'] at hsame
  subst hsame
  exact ⟨rfl, List.append_cancel_left h⟩

/-- A word does not start with a quote. -/
theorem word_ne_quoted {p : Char → Bool} {word : List Char} (hquote : p '"' = false)
    (hne : word ≠ []) (hword : word.all p = true) : word ++ rest ≠ '"' :: rest' := by
  intro h
  cases word with
  | nil => exact hne rfl
  | cons c word =>
    rw [List.cons_append, List.cons_eq_cons] at h
    rw [List.all_cons, h.1, hquote] at hword
    cases hword

/-- How some characters are written: as they are if they make a word, or between quotes. -/
inductive Atom (p : Char → Bool) (cs : List Char) : List Char → Prop
  | word (hne : cs ≠ []) (hall : cs.all p = true) : Atom p cs cs
  | quoted : Atom p cs ('"' :: (Quoted.encode cs ++ ['"']))

/-- What two atoms that start one text stand for is the same, and so is what follows them. -/
theorem Atom.cancel {p : Char → Bool} {cs cs' atom atom' : List Char} (hquote : p '"' = false)
    (h : Atom p cs atom) (h' : Atom p cs' atom') (hrest : StopsWord p rest)
    (hrest' : StopsWord p rest') (hsame : atom ++ rest = atom' ++ rest') :
    atom = atom' ∧ cs = cs' ∧ rest = rest' := by
  cases h with
  | word hne hall =>
    cases h' with
    | word hne' hall' =>
      obtain ⟨hword, hrests⟩ := word_cancel hall hall' hrest hrest' hsame
      exact ⟨hword, hword, hrests⟩
    | quoted => exact absurd hsame (word_ne_quoted hquote hne hall)
  | quoted =>
    cases h' with
    | word hne' hall' => exact absurd hsame.symm (word_ne_quoted hquote hne' hall')
    | quoted =>
      simp only [List.cons_append, List.append_assoc, List.nil_append, List.cons.injEq,
        true_and] at hsame
      obtain ⟨rfl, hrests⟩ := Quoted.encode_cancel hsame
      exact ⟨rfl, rfl, hrests⟩

/-! ## Literals -/

/-- The characters of names of types, and of literals that do not stand between quotes. -/
def isWordChar (c : Char) : Bool := c.isAlphanum || isNumeral c

/-- Numbers are written with at least one character. -/
theorem text_ne_nil (value : Number) : value.text ≠ [] := by
  have hdigits : ∀ n, Decimal.digitsOf n ≠ [] := fun n => Nat.toDigits_ne_nil
  cases value with
  | int n => cases n <;> simp [Number.text, Decimal.integerText, hdigits]
  | real x =>
    rw [Number.text, Decimal.Layout.text]
    refine List.append_ne_nil_of_right_ne_nil _ ?_
    unfold Decimal.Layout.magnitudeText
    dsimp only
    split
    · decide
    · split
      · split <;> simp
      · split <;> simp

/-- Numbers are words. -/
theorem all_isWordChar (value : Number) : value.text.all isWordChar = true := by
  have hnumerals := List.all_eq_true.1 (all_text value)
  refine List.all_eq_true.2 fun c hc => ?_
  rw [isWordChar, hnumerals c hc, Bool.or_true]

/-- A literal is an atom. -/
theorem atom_literal {value : Tree} (h : literalType value = .literal value.compact) :
    ∃ cs, Atom isWordChar cs value.compactText := by
  cases value with
  | null => cases h
  | bool value => cases value <;> exact ⟨_, .word (by decide) (by decide)⟩
  | num value => exact ⟨_, .word (text_ne_nil value) (all_isWordChar value)⟩
  | str value =>
    refine ⟨value.toList, ?_⟩
    rw [Tree.compactText, Quoted.quote, String.toList_ofList]
    exact .quoted
  | seq => cases h
  | map => cases h

/-- Two literals that start one text are the same, and so is what follows them. -/
theorem literal_cancel {v w : Tree} (hv : literalType v = .literal v.compact)
    (hw : literalType w = .literal w.compact) (hrest : StopsWord isWordChar rest)
    (hrest' : StopsWord isWordChar rest')
    (h : v.compactText ++ rest = w.compactText ++ rest') :
    v.compactText = w.compactText ∧ rest = rest' := by
  obtain ⟨cs, hv⟩ := atom_literal hv
  obtain ⟨cs', hw⟩ := atom_literal hw
  obtain ⟨hsame, -, hrests⟩ := Atom.cancel (by decide) hv hw hrest hrest' h
  exact ⟨hsame, hrests⟩

/-! ## Keys -/

/-- The characters of an identifier may all stand after the first. -/
theorem atom_identifier {cs : List Char} (h : isIdentifier cs = true) :
    Atom continuesIdentifier cs cs := by
  cases cs with
  | nil => cases h
  | cons c cs =>
    rw [isIdentifier, Bool.and_eq_true] at h
    refine .word (List.cons_ne_nil _ _) ?_
    rw [List.all_cons, h.2, Bool.and_true]
    simp only [continuesIdentifier, startsIdentifier, Char.isAlphanum, Bool.or_eq_true] at h ⊢
    exact h.1.imp_left fun hletter => hletter.imp_left .inl

/-- A key is an atom. -/
theorem atom_propertyKey (name : String) :
    Atom continuesIdentifier name.toList (propertyKey name).toList := by
  rw [propertyKey]
  split
  · next h => exact atom_identifier h
  · rw [Quoted.quote, String.toList_ofList]
    exact .quoted

/-- The question mark of a key is seen. -/
theorem mark_cancel {marked marked' : Bool}
    (h : (if marked then ['?'] else []) ++ (':' :: rest) =
      (if marked' then ['?'] else []) ++ (':' :: rest')) : marked = marked' ∧ rest = rest' := by
  cases marked <;> cases marked' <;> simp_all

/-- An identifier ends before the mark and the colon of a key. -/
theorem stopsWord_mark (marked : Bool) :
    StopsWord continuesIdentifier ((if marked then ['?'] else []) ++ (':' :: rest)) := by
  intro c hc
  cases marked <;> cases hc <;> decide

/-- Two keys that start one text have the same name and the same mark, and the same follows them. -/
theorem key_cancel {m m' : Member} (h : m.key ++ ':' :: rest = m'.key ++ ':' :: rest') :
    m.name = m'.name ∧ m.optional = m'.optional ∧ rest = rest' := by
  rw [Member.key, Member.key, List.append_assoc, List.append_assoc] at h
  obtain ⟨-, hname, hmark⟩ := Atom.cancel (by decide) (atom_propertyKey m.name)
    (atom_propertyKey m'.name) (stopsWord_mark _) (stopsWord_mark _) h
  exact ⟨String.toList_injective hname, mark_cancel hmark⟩

/-- A key starts with a quote or with a character of an identifier. -/
theorem key_eq_cons (m : Member) :
    ∃ c rest, m.key = c :: rest ∧ (c = '"' ∨ continuesIdentifier c = true) := by
  rw [Member.key]
  generalize hkey : (propertyKey m.name).toList = key
  have hatom := hkey ▸ atom_propertyKey m.name
  cases hatom with
  | word hne hall =>
    obtain ⟨c, cs, hcs⟩ := List.exists_cons_of_ne_nil hne
    rw [hcs, List.all_cons, Bool.and_eq_true] at hall
    exact ⟨c, _, by rw [hcs]; rfl, .inr hall.1⟩
  | quoted => exact ⟨'"', _, rfl, .inl rfl⟩

/-! ## Comments -/

/-- What may stand in front of a line: nothing, or a comment that ends at its first closer. -/
def IsComment (indent : Nat) (text : List Char) : Prop :=
  text = [] ∨ ∃ body, ¬ closer <:+: body ∧
    text = pad indent ++ "/**".toList ++ body ++ " */\n".toList

/-- The comment of a property is one. -/
theorem isComment_comment (indent : Nat) (m : Member) : IsComment indent (m.comment indent) := by
  rw [Member.comment]
  split
  · next text _ =>
    refine (docComment_eq indent text.toList).imp_right fun ⟨body, hbody, htext⟩ => ?_
    exact ⟨body, fun hin => hbody (hin.trans (List.suffix_append _ body).isInfix), htext⟩
  · exact .inl rfl

/-- Behind two comments, or none, that start one text, the same line follows. -/
theorem comment_cancel {indent : Nat} {comment comment' : List Char}
    (hcomment : IsComment indent comment) (hcomment' : IsComment indent comment')
    (hrest : rest.head? ≠ some '/') (hrest' : rest'.head? ≠ some '/')
    (h : comment ++ (pad indent ++ rest) = comment' ++ (pad indent ++ rest')) : rest = rest' := by
  have hend : ∀ x, " */\n".toList ++ x = ' ' :: '*' :: '/' :: '\n' :: x := fun _ => rfl
  rcases hcomment with rfl | ⟨body, hbody, rfl⟩
  · rcases hcomment' with rfl | ⟨body', hbody', rfl⟩
    · exact List.append_cancel_left h
    · -- one text starts with a comment, the other with a line
      simp only [List.nil_append, List.append_assoc, List.append_cancel_left_eq] at h
      exact absurd (by rw [h]; rfl) hrest
  · rcases hcomment' with rfl | ⟨body', hbody', rfl⟩
    · simp only [List.nil_append, List.append_assoc, List.append_cancel_left_eq] at h
      exact absurd (by rw [← h]; rfl) hrest'
    · simp only [List.append_assoc, List.append_cancel_left_eq, hend] at h
      have hafter := congrArg afterCloser h
      rw [afterCloser_append hbody, afterCloser_append hbody'] at hafter
      exact List.append_cancel_left (List.cons.inj hafter).2

end EventSchema.TypeScript
