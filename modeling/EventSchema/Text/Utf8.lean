/-!
# UTF-8

Decoding of bytes that need not be valid: file contents and file names.

* `step` — the first character of some bytes and its length, or the length of the longest start of a
  character that is not continued as it must be;
* `decode?` — the text of valid bytes;
* `decodeShown` — a text in which each bad sequence is one U+FFFD.
-/

namespace EventSchema.Text.Utf8

/-- A continuation byte within bounds. -/
def within (b low high : UInt8) : Bool := low ≤ b && b ≤ high

/-- The bounds of the second byte after a first byte of two, three or four, and the number of
bytes. -/
def lead? (b : UInt8) : Option (UInt8 × UInt8 × Nat) :=
  if within b 0xC2 0xDF then some (0x80, 0xBF, 2)
  else if b = 0xE0 then some (0xA0, 0xBF, 3)
  else if b = 0xED then some (0x80, 0x9F, 3)
  else if within b 0xE1 0xEF then some (0x80, 0xBF, 3)
  else if b = 0xF0 then some (0x90, 0xBF, 4)
  else if within b 0xF1 0xF3 then some (0x80, 0xBF, 4)
  else if b = 0xF4 then some (0x80, 0x8F, 4)
  else none

/-- The payload of a continuation byte. -/
def payload (b : UInt8) : Nat := b.toNat % 64

/-- The first character and its length, or no character and the length of what to skip. -/
def step : List UInt8 → Option Char × Nat
  | [] => (none, 0)
  | b :: rest =>
    if b < 0x80 then (some (Char.ofNat b.toNat), 1)
    else
      match lead? b with
      | none => (none, 1)
      | some (low, high, count) =>
        match rest with
        | [] => (none, 1)
        | c :: rest =>
          if !within c low high then (none, 1)
          else if count = 2 then (some (Char.ofNat (b.toNat % 32 * 64 + payload c)), 2)
          else
            match rest with
            | [] => (none, 2)
            | d :: rest =>
              if !within d 0x80 0xBF then (none, 2)
              else if count = 3 then
                (some (Char.ofNat ((b.toNat % 16 * 64 + payload c) * 64 + payload d)), 3)
              else
                match rest with
                | [] => (none, 3)
                | e :: _ =>
                  if !within e 0x80 0xBF then (none, 3)
                  else
                    (some (Char.ofNat
                      (((b.toNat % 8 * 64 + payload c) * 64 + payload d) * 64 + payload e)), 4)

/-- The characters of some bytes, with none for each bad sequence. -/
def decodeEach (bytes : List UInt8) : List (Option Char) :=
  match bytes with
  | [] => []
  | b :: rest =>
    let found := step (b :: rest)
    found.1 :: decodeEach (rest.drop (found.2 - 1))
termination_by bytes.length
decreasing_by simp only [List.length_drop, List.length_cons]; omega

/-- The text of valid bytes. -/
def decode? (bytes : List UInt8) : Option String :=
  ((decodeEach bytes).mapM id).map String.ofList

/-- The text of some bytes, with U+FFFD in place of each bad sequence. -/
def decodeShown (bytes : List UInt8) : String :=
  String.ofList ((decodeEach bytes).map fun c => c.getD '\ufffd')

/-- The bytes of a text. -/
def encode (s : String) : List UInt8 := s.toUTF8.toList

end EventSchema.Text.Utf8
