import EventSchema.Decimal.Shortest

/-!
# Decimal literals

Reading a decimal literal as a binary64 number, in the two ways that documents need.

* `nearest?` — the binary64 number nearest to the value of the literal;
* `Scaled.value?` — the way of JSON documents: a significand of at most 64 bits is rounded, and the
  result is multiplied or divided by a power of ten that was rounded as well. For long literals this
  may differ from the nearest number in the last place.
-/

namespace EventSchema.Decimal

/-- The value of decimal digits. -/
def valueOf (digits : List Char) : Nat :=
  digits.foldl (fun n c => 10 * n + (c.toNat - '0'.toNat)) 0

/-- Decimal digits. -/
def isDigit (c : Char) : Bool := '0' ≤ c && c ≤ '9'

/-- The binary64 number nearest to `digits · 10 ^ exponent`, where beyond 400 places the exponent
alone decides between zero and a refusal. -/
def nearest? (negative : Bool) (digits : Nat) (exponent : Int) : Option Double :=
  if digits = 0 then some (Double.zero negative)
  else
    let places : Int := (digitsLength digits : Int) + exponent
    if places < -400 then some (Double.zero negative)
    else if 400 < places then none
    else
      let p := powerOfTen exponent
      Double.nearest? negative (digits * p.1) p.2
where
  /-- the number of decimal digits -/
  digitsLength (n : Nat) : Nat := (Nat.toDigits 10 n).length

/-- A significand below `2 ^ 64` and a decimal exponent. -/
structure Scaled where
  significand : Nat
  exponent : Int

namespace Scaled

/-- The greatest significand that is kept exactly. -/
def limit : Nat := Nat.pow 2 64 - 1

/-- Appends integral digits: from the first one that would exceed the limit on, each digit only
raises the exponent. -/
def integral : List Char → Scaled → Scaled
  | [], s => s
  | c :: rest, s =>
    let next := 10 * s.significand + valueOf [c]
    if s.exponent = 0 ∧ next ≤ limit then integral rest ⟨next, 0⟩
    else integral rest ⟨s.significand, s.exponent + 1⟩

/-- Appends fractional digits, up to the first one that would exceed the limit. -/
def fractional : List Char → Scaled → Scaled
  | [], s => s
  | c :: rest, s =>
    let next := 10 * s.significand + valueOf [c]
    if next ≤ limit then fractional rest ⟨next, s.exponent - 1⟩ else s

/-- The power of ten that is the factor for up to 308 places. -/
def tenTo? (n : Nat) : Option Double := Double.nearest? false (Nat.pow 10 n) 1

/-- Applies a negative exponent to a number, 308 places at a time; steps are left as long as the
number is not zero. -/
def shrink : Nat → Double → Nat → Option Double
  | 0, x, _ => some (Double.zero x.negative)
  | steps + 1, x, places =>
    if x.mantissa = 0 then some x
    else if places ≤ 308 then do x.div? (← tenTo? places)
    else do shrink steps (← x.div? (← tenTo? 308)) (places - 308)

/-- The number that is read, if it is finite. -/
def value? (negative : Bool) (s : Scaled) : Option Double := do
  let x ← Double.nearest? negative s.significand 1
  match s.exponent with
  | .ofNat places =>
    if places ≤ 308 then x.mul? (← tenTo? places)
    else if x.mantissa = 0 then some x else none
  | .negSucc n => shrink 4 x (n + 1)

end Scaled

end EventSchema.Decimal
