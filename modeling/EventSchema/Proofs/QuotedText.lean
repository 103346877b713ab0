import EventSchema.Text.Quoted

/-!
# Quoted strings are read back

What is written between two quotes can be told from what follows: the closing quote is the first one
that stands alone, and the characters before it stand for the characters that were written.

* `hexUnit?_hexDigit` — the value of an escape by number;
* `items_escape` — an escaped character is read as one item, which stands for the character;
* `decode?_encode` — so a literal is read back, whatever follows it.
-/

namespace EventSchema.Text.Quoted

/-- A hexadecimal digit has the value that it was written for. -/
theorem hexValue?_hexDigit : ∀ n < 16, hexValue? (hexDigit n) = some n := by
  decide

/-- The value of the escape of a number below 256. -/
theorem hexUnit?_hexDigit {n : Nat} (h : n < 256) :
    hexUnit? '0' '0' (hexDigit (n / 16)) (hexDigit (n % 16)) = some n := by
  have hzero : hexValue? '0' = some 0 := by decide
  have hhigh := hexValue?_hexDigit (n / 16) (by omega)
  have hlow := hexValue?_hexDigit (n % 16) (by omega)
  simp only [hexUnit?, hzero, hhigh, hlow, Option.bind_eq_bind, Option.bind_some, Option.pure_def,
    Option.some.injEq]
  omega

/-- A unit that is no half of a pair is a character by itself. -/
theorem pairUnits_unit {n : Nat} (h : n < 0xD800) (found : List Item) :
    pairUnits (.unit n :: found) = (pairUnits found).map (Char.ofNat n :: ·) := by
  have hhigh : isHigh n = false := by
    simp only [isHigh, Bool.and_eq_false_iff, decide_eq_false_iff_not]
    omega
  have hlow : isLow n = false := by
    simp only [isLow, Bool.and_eq_false_iff, decide_eq_false_iff_not]
    omega
  rcases found with _ | ⟨_ | _, _⟩ <;> simp [pairUnits, hhigh, hlow]

/-- One item in front of what is read after it. -/
def readBefore (item : Item) (read : List Item × List Char) : List Item × List Char :=
  (item :: read.1, read.2)

/-- A short escape is read as the character that it stands for. -/
theorem items_shortEscape {e c : Char} (he : shortEscape? e = some c) (hu : e ≠ 'u')
    (rest : List Char) : items ('\\' :: e :: rest) = (items rest).map (readBefore (.char c)) := by
  rw [items]
  · rw [he]
    cases items rest <;> rfl
  · intro a b c d rest' h
    exact absurd h hu

/-- An escape by number is read as the unit that it stands for. -/
theorem items_unitEscape {n : Nat} (h : n < 256) (rest : List Char) :
    items ('\\' :: 'u' :: '0' :: '0' :: hexDigit (n / 16) :: hexDigit (n % 16) :: rest) =
      (items rest).map (readBefore (.unit n)) := by
  rw [items, hexUnit?_hexDigit h]
  cases items rest <;> rfl

/-- Any other character is read as itself. -/
theorem items_plain {c : Char} (hquote : c ≠ '"') (hslash : c ≠ '\\') (hcontrol : ¬ c < ' ')
    (rest : List Char) : items (c :: rest) = (items rest).map (readBefore (.char c)) := by
  rw [items]
  · rw [if_neg (by simp [hcontrol, hslash])]
    cases items rest <;> rfl
  all_goals
    intros
    simp_all

/-- The characters that a backslash and one more character stand for. -/
def shortEscapes : List (Char × Char) :=
  [('"', '"'), ('\\', '\\'), ('\x08', 'b'), ('\x0c', 'f'), ('\n', 'n'), ('\r', 'r'), ('\t', 't')]

/-- These characters are written so, and read again. -/
theorem escape_of_mem : ∀ e ∈ shortEscapes,
    escape e.1 = ['\\', e.2] ∧ shortEscape? e.2 = some e.1 ∧ e.2 ≠ 'u' := by
  decide

/-- The others are written by number if they are control characters, and as they are otherwise. -/
theorem escape_of_not_mem {c : Char} (h : c ∉ shortEscapes.map (·.1)) :
    escape c = if c < ' ' then
      ['\\', 'u', '0', '0', hexDigit (c.toNat / 16), hexDigit (c.toNat % 16)] else [c] := by
  simp only [shortEscapes, List.map_cons, List.map_nil, List.mem_cons, List.not_mem_nil, or_false,
    not_or] at h
  obtain ⟨hquote, hslash, hback, hfeed, hline, hreturn, htab⟩ := h
  rw [escape, if_neg hquote, if_neg hslash, if_neg hback, if_neg hfeed, if_neg hline,
    if_neg hreturn, if_neg htab]

/-- An escaped character is read as one item, and the item stands for the character. -/
theorem items_escape (c : Char) :
    ∃ item, (∀ rest, items (escape c ++ rest) = (items rest).map (readBefore item)) ∧
      ∀ found, pairUnits (item :: found) = (pairUnits found).map (c :: ·) := by
  by_cases hmem : c ∈ shortEscapes.map (·.1)
  · obtain ⟨e, he, rfl⟩ := List.mem_map.1 hmem
    obtain ⟨hescape, hshort, hu⟩ := escape_of_mem e he
    refine ⟨.char e.1, fun rest => ?_, fun found => by rw [pairUnits]⟩
    rw [hescape]
    exact items_shortEscape hshort hu rest
  · have hescape := escape_of_not_mem hmem
    by_cases hcontrol : c < ' '
    · have hsmall : c.toNat < 32 := hcontrol
      rw [if_pos hcontrol] at hescape
      refine ⟨.unit c.toNat, fun rest => ?_, fun found => ?_⟩
      · rw [hescape]
        exact items_unitEscape (by omega) rest
      · rw [pairUnits_unit (by omega), Char.ofNat_toNat]
    · rw [if_neg hcontrol] at hescape
      refine ⟨.char c, fun rest => ?_, fun found => by rw [pairUnits]⟩
      rw [hescape]
      refine items_plain ?_ ?_ hcontrol rest
      · rintro rfl
        exact hmem (by decide)
      · rintro rfl
        exact hmem (by decide)

/-- A literal is read back, whatever follows it. -/
theorem decode?_encode (cs rest : List Char) :
    decode? (encode cs ++ '"' :: rest) = some (cs, rest) := by
  have key : ∃ found, items (encode cs ++ '"' :: rest) = some (found, rest) ∧
      pairUnits found = some cs := by
    induction cs with
    | nil => exact ⟨[], by simp [encode, items], by rw [pairUnits]⟩
    | cons c cs ih =>
      obtain ⟨found, hitems, hpairs⟩ := ih
      obtain ⟨item, hread, hstands⟩ := items_escape c
      refine ⟨item :: found, ?_, ?_⟩
      · rw [encode, List.flatMap_cons, List.append_assoc, hread, ← encode, hitems]
        rfl
      · rw [hstands, hpairs]
        rfl
  obtain ⟨found, hitems, hpairs⟩ := key
  simp [decode?, hitems, hpairs]

/-- Two literals that start one text are the same, and so is what follows them. -/
theorem encode_cancel {cs cs' rest rest' : List Char}
    (h : encode cs ++ '"' :: rest = encode cs' ++ '"' :: rest') : cs = cs' ∧ rest = rest' := by
  have hread := congrArg decode? h
  rw [decode?_encode, decode?_encode] at hread
  simpa using hread

end EventSchema.Text.Quoted
