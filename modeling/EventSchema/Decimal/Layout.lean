import EventSchema.Decimal.Shortest

/-!
# Decimal layout

How chosen digits are laid out as text: with a point while the number is neither too large nor too
small, with an exponent otherwise. A `Layout` holds the decisions in which two formats differ.
-/

namespace EventSchema.Decimal

/-- The decisions of a format on how a binary64 number is written. -/
structure Layout where
  /-- positional notation is used while the point stands after at most this many digits -/
  pointAtMost : Int
  /-- and while the point stands at most this many places before the first digit -/
  zerosAtMost : Int
  /-- whether an exponent that is not negative has a sign -/
  plusSign : Bool
  deriving DecidableEq, Repr

/-- The decimal digits of a natural number, as characters. -/
def digitsOf (n : Nat) : List Char := Nat.toDigits 10 n

/-- An integer in decimal. -/
def integerText (n : Int) : List Char :=
  match n with
  | .ofNat n => digitsOf n
  | .negSucc n => '-' :: digitsOf (n + 1)

/-- The exponent of a number in exponent form. -/
def Layout.exponentText (layout : Layout) (e : Int) : List Char :=
  match e with
  | .ofNat n => (if layout.plusSign then ['+'] else []) ++ digitsOf n
  | .negSucc n => '-' :: digitsOf (n + 1)

/-- The magnitude of a number as text. An integral value in positional form keeps `.0`. -/
def Layout.magnitudeText (layout : Layout) (d : Digits) : List Char :=
  let text := digitsOf d.digits
  let point : Int := text.length + d.exponent
  if d.digits = 0 then "0.0".toList
  else if 0 < point ∧ point ≤ layout.pointAtMost then
    if d.exponent ≥ 0 then text ++ List.replicate d.exponent.toNat '0' ++ ".0".toList
    else text.take point.toNat ++ '.' :: text.drop point.toNat
  else if -layout.zerosAtMost ≤ point ∧ point ≤ 0 then
    "0.".toList ++ List.replicate (-point).toNat '0' ++ text
  else
    text.take 1 ++ (if text.length = 1 then [] else '.' :: text.drop 1) ++
      'e' :: layout.exponentText (point - 1)

/-- A binary64 number as text. -/
def Layout.text (layout : Layout) (x : Double) : List Char :=
  (if x.negative then ['-'] else []) ++ layout.magnitudeText (shortest x)

end EventSchema.Decimal
