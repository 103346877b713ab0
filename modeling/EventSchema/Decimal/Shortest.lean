import EventSchema.Decimal.Double

/-!
# Shortest decimals

The fewest decimal digits that read back as a given binary64 number. The numbers that round to
`m · 2 ^ e` fill an interval around it, whose ends belong to it exactly if `m` is even. On the grid
of the decimals with `n` digits only the two neighbours of the number can be the nearest grid point
inside, so the first grid with a neighbour inside gives the digits; of two neighbours inside the
nearer is taken, and of two equally near ones the even one.
-/

namespace EventSchema.Decimal

/-- The decimal `digits · 10 ^ exponent`. -/
structure Digits where
  digits : Nat
  exponent : Int
  deriving DecidableEq, Repr

/-- The numerator and the denominator of `10 ^ e`. -/
def powerOfTen (e : Int) : Nat × Nat :=
  match e with
  | .ofNat n => (Nat.pow 10 n, 1)
  | .negSucc n => (1, Nat.pow 10 (n + 1))

/-- Three fractions over one denominator: the ends of an interval and a number inside. -/
structure Interval where
  low : Nat
  value : Nat
  high : Nat
  den : Nat
  closed : Bool

/-- The numbers that round to a positive binary64 number. Below a power of two the lower half of the
interval has half the width. -/
def Interval.ofDouble (x : Double) : Interval :=
  let p := Double.powerOfTwo (x.exponent - 2)
  let m := 4 * x.mantissa
  let below := if x.mantissa = Nat.pow 2 52 ∧ Double.leastExponent < x.exponent then 1 else 2
  { low := (m - below) * p.1, value := m * p.1, high := (m + 2) * p.1, den := p.2
    closed := x.mantissa % 2 == 0 }

/-- Whether `num / den` lies in the interval. -/
def Interval.holds (i : Interval) (num den : Nat) : Bool :=
  let x := num * i.den
  let low := i.low * den
  let high := i.high * den
  if i.closed then low ≤ x && x ≤ high else low < x && x < high

/-- The grid point nearest to the number among its two neighbours in units of `10 ^ e`, if one of
them lies in the interval. -/
def Interval.gridPoint? (i : Interval) (e : Int) : Option Nat :=
  let p := powerOfTen e
  let num := i.value * p.2
  let den := i.den * p.1
  let q := num / den
  let r := num % den
  let lower := i.holds (q * p.1) p.2
  let upper := i.holds ((q + 1) * p.1) p.2
  if lower && upper then
    if 2 * r < den then some q
    else if den < 2 * r then some (q + 1)
    else if q % 2 = 0 then some q else some (q + 1)
  else if lower then some q
  else if upper then some (q + 1)
  else none

/-- The least `k` with `value < 10 ^ k`, for a positive value, starting from a guess that is not
above it. -/
def magnitudeFrom : Nat → Interval → Int → Int
  | 0, _, k => k
  | steps + 1, i, k =>
    let p := powerOfTen k
    if i.value * p.2 < i.den * p.1 then k else magnitudeFrom steps i (k + 1)

/-- The least `k` with `value < 10 ^ k`, for a positive binary64 number: a binary digit is worth
between 0.30102 and 0.30103 decimal digits. -/
def magnitude (x : Double) (i : Interval) : Int :=
  let bits : Int := (Nat.log2 x.mantissa : Int) + x.exponent
  magnitudeFrom 4 i (Int.fdiv (bits * 30103) 100000 - 1)

/-- The digits without their trailing zeros, at most as many as there are steps. -/
def Digits.stripZeros : Nat → Digits → Digits
  | 0, d => d
  | steps + 1, d =>
    if d.digits ≠ 0 ∧ d.digits % 10 = 0 then stripZeros steps ⟨d.digits / 10, d.exponent + 1⟩ else d

/-- The first grid, from `n` digits on, that has a point in the interval. -/
def firstGrid : Nat → Interval → Int → Nat → Digits
  | 0, i, k, n => ⟨i.value * (powerOfTen (k - n)).2 / (i.den * (powerOfTen (k - n)).1), k - n⟩
  | steps + 1, i, k, n =>
    match i.gridPoint? (k - n) with
    | some d => Digits.stripZeros 20 ⟨d, k - n⟩
    | none => firstGrid steps i k (n + 1)

/-- The shortest digits of the magnitude of a binary64 number. -/
def shortest (x : Double) : Digits :=
  if x.mantissa = 0 then ⟨0, 0⟩
  else
    let i := Interval.ofDouble x
    firstGrid 17 i (magnitude x i) 1

end EventSchema.Decimal
