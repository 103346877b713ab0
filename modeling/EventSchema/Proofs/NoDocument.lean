import EventSchema.Markup
import EventSchema.Proofs.ModuleText

/-!
# A module is no document

A module starts with a comment, and no JSON text starts with a slash. So a module that is read back
from its file is not taken for a document.

* `encode_ofList` — the bytes of a text, character by character;
* `toList_decode?_slash` — a slash is read back as one;
* `parse?_slash` — a text with a slash in front is not JSON;
* `exists_moduleText_eq`, `parse_module` — a module is such a text, whatever its banner and events.
-/

namespace EventSchema

/-! ## Bytes -/

namespace Text.Utf8

/-- The bytes of an array from a place on are put behind those found before. -/
theorem toList_loop (bytes : ByteArray) (i : Nat) (found : List UInt8) :
    ByteArray.toList.loop bytes i found = found.reverse ++ bytes.data.toList.drop i := by
  fun_induction ByteArray.toList.loop bytes i found with
  | case1 i found hlt ih =>
    have hlength : i < bytes.data.toList.length := by simpa using hlt
    rw [ih, List.drop_eq_getElem_cons hlength]
    simp [ByteArray.get!, hlt]
  | case2 i found hge =>
    have hlength : bytes.data.toList.length ≤ i := by simpa using hge
    rw [List.drop_eq_nil_of_le hlength, List.append_nil]

/-- The bytes of a text are those of its characters. -/
theorem encode_ofList (cs : List Char) :
    encode (String.ofList cs) = cs.flatMap String.utf8EncodeChar := by
  rw [encode, String.toUTF8, String.toByteArray_ofList, ByteArray.toList, toList_loop,
    List.utf8Encode, List.toList_data_toByteArray]
  rfl

/-- A text with a slash in front has bytes with its byte in front. -/
theorem exists_encode_eq {text : String} {rest : List Char} (h : text.toList = '/' :: rest) :
    ∃ bytes, encode text = 47 :: bytes := by
  rw [← String.ofList_toList (s := text), h, encode_ofList, List.flatMap_cons]
  exact ⟨_, rfl⟩

/-- Bytes that start with a slash spell a text that does so. -/
theorem toList_decode?_slash {bytes : List UInt8} {text : String}
    (h : decode? (47 :: bytes) = some text) : ∃ rest, text.toList = '/' :: rest := by
  rw [decode?, Option.map_eq_some_iff] at h
  obtain ⟨cs, hcs, rfl⟩ := h
  have hstep : step (47 :: bytes) = (some '/', 1) := by
    rw [step, if_pos (by decide)]
    rfl
  rw [decodeEach, hstep, List.mapM_cons] at hcs
  obtain ⟨c, hc, hcs⟩ := Option.bind_eq_some_iff.1 hcs
  obtain ⟨rest, -, hrest⟩ := Option.bind_eq_some_iff.1 hcs
  obtain rfl := Option.some.inj hc
  obtain rfl := Option.some.inj hrest
  exact ⟨rest, String.toList_ofList⟩

end Text.Utf8

/-! ## Texts -/

/-- A text with a slash in front is not JSON. -/
theorem Markup.Json.parse?_slash {text : String} {rest : List Char}
    (h : text.toList = '/' :: rest) : Markup.Json.parse? text = none := by
  have hdigits : Markup.Json.digits ('/' :: rest) = ([], '/' :: rest) := rfl
  have htoken : Markup.Json.token? ('/' :: rest) = none := by
    simp [Markup.Json.token?, Markup.Json.number?, hdigits]
  have hspace : Markup.Json.isSpace '/' = false := by decide
  simp [Markup.Json.parse?, Markup.Json.parseWithin?, Markup.Json.tokens?, h,
    Markup.Json.tokensAfter?, hspace, htoken]

namespace TypeScript

/-- The comment for a line starts with a slash. -/
theorem exists_lineComment_eq (line : List Char) : ∃ rest, lineComment line = '/' :: rest := by
  rw [lineComment]
  split
  · exact ⟨_, rfl⟩
  · exact ⟨_, rfl⟩

/-- A module starts with a slash. -/
theorem exists_moduleText_eq (options : ModuleOptions) (named : List (Event × EventNames)) :
    ∃ rest, moduleText options named = '/' :: rest := by
  rw [moduleText, header, bannerText, lineComments]
  cases hlines : Text.lines options.banner.toList with
  | nil =>
    rw [Text.lines_eq_nil_iff] at hlines
    rw [hlines]
    exact ⟨_, rfl⟩
  | cons line lines =>
    obtain ⟨rest, hrest⟩ := exists_lineComment_eq line
    rw [List.flatMap_cons, hrest]
    exact ⟨_, rfl⟩

end TypeScript

/-- The bytes of a module are never those of a JSON document. -/
theorem parse_module {catalog : Catalog} {options : TypeScript.ModuleOptions} {text found : String}
    (h : catalog.module options = .ok text)
    (hfound : Text.Utf8.decode? (Text.Utf8.encode text) = some found) :
    Markup.parse .json found = .error (.malformed .json) := by
  obtain ⟨named, -, -, htext⟩ := named_of_module h
  obtain ⟨rest, hrest⟩ := TypeScript.exists_moduleText_eq options named
  obtain ⟨bytes, hbytes⟩ := Text.Utf8.exists_encode_eq (htext.trans hrest)
  rw [hbytes] at hfound
  obtain ⟨rest', hrest'⟩ := Text.Utf8.toList_decode?_slash hfound
  simp only [Markup.parse, Markup.Json.parse?_slash hrest']

end EventSchema
