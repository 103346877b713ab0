import EventSchema.Markup.Json
import EventSchema.Proofs.QuotedText
import EventSchema.TypeScript.Name

/-!
# The keys of properties

The key of a property is its name, as it is or as a literal, and the name can be read from it.

* `Text.Quoted.IsBody`, `isBody_encode` — what stands between the quotes of a literal;
* `Markup.Json.parse?_quote` — a literal is a JSON text;
* `IsAsciiIdentifier`, `isIdentifier_iff` — the names that stand for themselves;
* `keyName?`, `keyName?_propertyKey` — the name that a key stands for;
* `propertyKey_read_back` — the two kinds of keys, and that different names have different keys.
-/

namespace EventSchema

namespace Text.Quoted

/-! ## Literals -/

/-- What may stand between the quotes of a literal on one line. A backslash takes the character
behind it along; no other quote is left, and no control character. -/
inductive IsBody : List Char → Prop
  | nil : IsBody []
  | plain {c : Char} {rest : List Char} (hquote : c ≠ '"') (hslash : c ≠ '\\')
      (hcontrol : ' ' ≤ c) (hrest : IsBody rest) : IsBody (c :: rest)
  | escaped {c : Char} {rest : List Char} (hcontrol : ' ' ≤ c) (hrest : IsBody rest) :
      IsBody ('\\' :: c :: rest)

variable {cs ds : List Char}

/-- One body behind another is a body. -/
theorem IsBody.append (hcs : IsBody cs) (hds : IsBody ds) : IsBody (cs ++ ds) := by
  induction hcs with
  | nil => exact hds
  | plain hquote hslash hcontrol _ ih => exact .plain hquote hslash hcontrol ih
  | escaped hcontrol _ ih => exact .escaped hcontrol ih

/-- There are no control characters in a body. -/
theorem IsBody.space_le (h : IsBody cs) : ∀ c ∈ cs, ' ' ≤ c := by
  induction h with
  | nil => exact nofun
  | plain _ _ hcontrol _ ih => exact List.forall_mem_cons.2 ⟨hcontrol, ih⟩
  | escaped hcontrol _ ih =>
    exact List.forall_mem_cons.2 ⟨by decide, List.forall_mem_cons.2 ⟨hcontrol, ih⟩⟩

/-- A hexadecimal digit is neither a quote nor a backslash nor a control character. -/
theorem hexDigit_plain : ∀ n < 16, hexDigit n ≠ '"' ∧ hexDigit n ≠ '\\' ∧ ' ' ≤ hexDigit n := by
  decide

/-- A hexadecimal digit may stand in front of a body. -/
theorem IsBody.hexDigit {n : Nat} (hn : n < 16) (h : IsBody cs) :
    IsBody (Quoted.hexDigit n :: cs) :=
  .plain (hexDigit_plain n hn).1 (hexDigit_plain n hn).2.1 (hexDigit_plain n hn).2.2 h

/-- The escape of a character is a body. -/
theorem isBody_escape (c : Char) : IsBody (escape c) := by
  by_cases hmem : c ∈ shortEscapes.map (·.1)
  · obtain ⟨e, he, rfl⟩ := List.mem_map.1 hmem
    have hcontrol : ∀ e ∈ shortEscapes, ' ' ≤ e.2 := by decide
    rw [(escape_of_mem e he).1]
    exact .escaped (hcontrol e he) .nil
  · rw [escape_of_not_mem hmem]
    split
    · next hcontrol =>
      have hsmall : c.toNat < 32 := hcontrol
      have hdigits : IsBody [Quoted.hexDigit (c.toNat / 16), Quoted.hexDigit (c.toNat % 16)] :=
        .hexDigit (by omega) (.hexDigit (by omega) .nil)
      have hzero : ∀ {rest}, IsBody rest → IsBody ('0' :: rest) :=
        .plain (by decide) (by decide) (by decide)
      exact .escaped (by decide) (hzero (hzero hdigits))
    · next hcontrol =>
      refine .plain ?_ ?_ (Char.not_lt.1 hcontrol) .nil
      · rintro rfl
        exact hmem (by decide)
      · rintro rfl
        exact hmem (by decide)

/-- What is written between two quotes is a body. -/
theorem isBody_encode (cs : List Char) : IsBody (encode cs) := by
  induction cs with
  | nil => exact .nil
  | cons c cs ih =>
    rw [encode, List.flatMap_cons]
    exact (isBody_escape c).append ih

/-- No character is written as nothing. -/
theorem escape_ne_nil (c : Char) : escape c ≠ [] := by
  by_cases hmem : c ∈ shortEscapes.map (·.1)
  · obtain ⟨e, he, rfl⟩ := List.mem_map.1 hmem
    rw [(escape_of_mem e he).1]
    exact List.cons_ne_nil _ _
  · rw [escape_of_not_mem hmem]
    split <;> exact List.cons_ne_nil _ _

/-- Nothing gets shorter between quotes. -/
theorem length_le_length_encode (cs : List Char) : cs.length ≤ (encode cs).length := by
  induction cs with
  | nil => exact Nat.zero_le _
  | cons c cs ih =>
    have hc := List.length_pos_iff.2 (escape_ne_nil c)
    rw [encode, List.flatMap_cons, ← encode, List.length_append, List.length_cons]
    omega

/-- The characters of a literal. -/
theorem toList_quote (s : String) : (quote s).toList = '"' :: encode s.toList ++ ['"'] :=
  String.toList_ofList

/-- A literal is longer than what it stands for, so it is another text. -/
theorem quote_ne_self (s : String) : quote s ≠ s := by
  intro h
  have hlength := congrArg List.length (toList_quote s)
  have hle := length_le_length_encode s.toList
  rw [h, List.length_append, List.length_cons, List.length_singleton] at hlength
  omega

end Text.Quoted

/-- A literal is the JSON text of the string that it was written for. -/
theorem Markup.Json.parse?_quote (s : String) :
    Markup.Json.parse? (Text.Quoted.quote s) = some (.str s) := by
  have htoken : token? ('"' :: (Text.Quoted.encode s.toList ++ ['"'])) =
      some (.scalar (.str s), []) := by
    simp [token?, Text.Quoted.decode?_encode]
  have htokens : tokens? (Text.Quoted.quote s).toList = some [.scalar (.str s)] := by
    have hspace : isSpace '"' = false := by decide
    simp [tokens?, Text.Quoted.toList_quote, tokensAfter?, hspace, htoken]
  simp [parse?, parseWithin?, htokens, State.feed?, State.complete?]

namespace TypeScript

/-! ## Identifiers -/

/-- The letters of ASCII. -/
def IsAsciiLetter (c : Char) : Prop := ('A' ≤ c ∧ c ≤ 'Z') ∨ ('a' ≤ c ∧ c ≤ 'z')

/-- The digits of ASCII. -/
def IsAsciiDigit (c : Char) : Prop := '0' ≤ c ∧ c ≤ '9'

/-- A letter, an underscore or a dollar sign, and then such characters or digits. -/
def IsAsciiIdentifier (name : String) : Prop :=
  ∃ first rest, name.toList = first :: rest ∧
    (IsAsciiLetter first ∨ first = '_' ∨ first = '$') ∧
    ∀ c ∈ rest, IsAsciiLetter c ∨ IsAsciiDigit c ∨ c = '_' ∨ c = '$'

/-- The letters are those of ASCII. -/
theorem isAlpha_iff {c : Char} : c.isAlpha = true ↔ IsAsciiLetter c := by
  change (decide ('A' ≤ c ∧ c ≤ 'Z') || (decide ('a' ≤ c) && decide (c ≤ 'z'))) = true ↔ _
  simp only [IsAsciiLetter, Bool.or_eq_true, Bool.and_eq_true, decide_eq_true_eq]

/-- The digits are those of ASCII. -/
theorem isDigit_iff {c : Char} : c.isDigit = true ↔ IsAsciiDigit c := by
  change (decide ('0' ≤ c) && decide (c ≤ '9')) = true ↔ _
  simp only [IsAsciiDigit, Bool.and_eq_true, decide_eq_true_eq]

/-- The characters that an identifier may start with. -/
theorem startsIdentifier_iff {c : Char} :
    startsIdentifier c = true ↔ IsAsciiLetter c ∨ c = '_' ∨ c = '$' := by
  simp only [startsIdentifier, Bool.or_eq_true, decide_eq_true_eq, isAlpha_iff, or_assoc]

/-- The characters that an identifier may go on with. -/
theorem continuesIdentifier_iff {c : Char} :
    continuesIdentifier c = true ↔
      IsAsciiLetter c ∨ IsAsciiDigit c ∨ c = '_' ∨ c = '$' := by
  simp only [continuesIdentifier, Char.isAlphanum, Bool.or_eq_true, decide_eq_true_eq, isAlpha_iff,
    isDigit_iff, or_assoc]

/-- The names that are identifiers. -/
theorem isIdentifier_iff {name : String} :
    isIdentifier name.toList = true ↔ IsAsciiIdentifier name := by
  rw [IsAsciiIdentifier]
  cases name.toList with
  | nil => exact iff_of_false nofun nofun
  | cons c rest =>
    simp only [isIdentifier, Bool.and_eq_true, List.all_eq_true, startsIdentifier_iff,
      continuesIdentifier_iff]
    constructor
    · intro h
      exact ⟨c, rest, rfl, h⟩
    · rintro ⟨_, _, hsame, h⟩
      cases hsame
      exact h

variable {name : String}

/-! ## Keys -/

/-- The key of an identifier is the identifier, and no other name is its own key. -/
theorem propertyKey_eq_self_iff : propertyKey name = name ↔ isIdentifier name.toList = true := by
  rw [propertyKey]
  split
  · next h => exact iff_of_true rfl h
  · next h => exact iff_of_false (Text.Quoted.quote_ne_self name) h

/-- The key of any other name is a literal. -/
theorem propertyKey_of_not_isIdentifier (h : isIdentifier name.toList ≠ true) :
    propertyKey name = Text.Quoted.quote name := by
  rw [propertyKey, if_neg h]

/-- The name that a key stands for: a text with a quote in front is read as JSON, and every other
text is a name by itself. -/
def keyName? (key : String) : Option String :=
  if key.toList.head? = some '"' then (Markup.Json.parse? key).bind Tree.string? else some key

/-- A name is read from its key. -/
theorem keyName?_propertyKey (name : String) : keyName? (propertyKey name) = some name := by
  by_cases h : isIdentifier name.toList = true
  · rw [propertyKey_eq_self_iff.2 h, keyName?, if_neg]
    -- an identifier has no quote in front
    intro hquote
    obtain ⟨rest, hrest⟩ := List.head?_eq_some_iff.1 hquote
    rw [hrest, isIdentifier, Bool.and_eq_true] at h
    exact absurd h.1 (by decide)
  · rw [propertyKey_of_not_isIdentifier h, keyName?, if_pos, Markup.Json.parse?_quote]
    · rfl
    · rw [Text.Quoted.toList_quote]
      rfl

/-- Keys are read back as their names. The key of a name
* is the name itself if and only if the name is an ASCII identifier;
* is one literal between double quotes otherwise, without line breaks and with no quote in it that
  stands alone, and as a JSON text it is the name;
* is the key of no other name. -/
theorem propertyKey_read_back (name : String) :
    (propertyKey name = name ↔ IsAsciiIdentifier name) ∧
      (propertyKey name = name ∨
        ∃ body, propertyKey name = "\"" ++ String.ofList body ++ "\"" ∧
          Text.Quoted.IsBody body ∧ '\n' ∉ body ∧ '\r' ∉ body ∧
          Markup.Json.parse? (propertyKey name) = some (.str name)) ∧
      keyName? (propertyKey name) = some name ∧
      ∀ other, propertyKey other = propertyKey name ↔ other = name := by
  refine ⟨?_, ?_, keyName?_propertyKey name, ?_⟩
  · rw [propertyKey_eq_self_iff, isIdentifier_iff]
  · by_cases h : isIdentifier name.toList = true
    · exact .inl (propertyKey_eq_self_iff.2 h)
    · have hbody := Text.Quoted.isBody_encode name.toList
      rw [propertyKey_of_not_isIdentifier h]
      refine .inr ⟨Text.Quoted.encode name.toList, ?_, hbody, ?_, ?_,
        Markup.Json.parse?_quote name⟩
      · apply String.toList_inj.1
        simp [Text.Quoted.toList_quote]
      · intro hline
        exact absurd (hbody.space_le _ hline) (by decide)
      · intro hreturn
        exact absurd (hbody.space_le _ hreturn) (by decide)
  · intro other
    constructor
    · intro h
      have hnames : some other = some name := by
        rw [← keyName?_propertyKey other, h, keyName?_propertyKey]
      exact Option.some.inj hnames
    · rintro rfl
      rfl

end TypeScript

end EventSchema
