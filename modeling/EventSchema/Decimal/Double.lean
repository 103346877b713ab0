/-!
# Finite binary64 numbers

A number of a document that is no exact integer is a finite binary64 number, kept as the integers
`± mantissa · 2 ^ exponent`, so that rounding, printing and comparing are integer arithmetic.

* `Double` — such a number, in its one canonical form;
* `Double.rounded`, `isCanonical_rounded` — a quotient rounded to the digits of a mantissa, and that
  it is in this form;
* `Double.nearest?` — the binary64 number nearest to a fraction, a tie going to the even mantissa;
* `Double.mul?`, `Double.div?` — the exact product or quotient of two numbers, rounded once.

A magnitude beyond the largest finite number is refused, never turned into an infinity.
-/

namespace EventSchema

namespace Double

/-- The exponent of the subnormal numbers and of zero. -/
def leastExponent : Int := -1074

/-- The exponent of the largest finite numbers. -/
def greatestExponent : Int := 971

/-- The form of a finite binary64 number: the mantissa is below `2 ^ 53`, and it is at least
`2 ^ 52` unless the exponent is the least one. -/
def IsCanonical (mantissa : Nat) (exponent : Int) : Prop :=
  leastExponent ≤ exponent ∧ exponent ≤ greatestExponent ∧ mantissa < Nat.pow 2 53 ∧
    (exponent = leastExponent ∨ Nat.pow 2 52 ≤ mantissa)

end Double

/-- A finite binary64 number. Only zero has two forms, one for each sign. -/
structure Double where
  negative : Bool
  mantissa : Nat
  exponent : Int
  canonical : Double.IsCanonical mantissa exponent
  deriving DecidableEq, Repr

namespace Double

/-- Zero with a sign. -/
def zero (negative : Bool) : Double :=
  ⟨negative, 0, leastExponent, by decide, by decide, by decide, .inl rfl⟩

/-- Numeric equality, for which the two zeros are equal. -/
def same (x y : Double) : Bool :=
  x.mantissa == y.mantissa &&
    (x.mantissa == 0 || (x.exponent == y.exponent && x.negative == y.negative))

/-- The numerator and the denominator of `2 ^ e`. -/
def powerOfTwo (e : Int) : Nat × Nat :=
  match e with
  | .ofNat n => (Nat.pow 2 n, 1)
  | .negSucc n => (1, Nat.pow 2 (n + 1))

/-- A quotient rounded to the nearest integer, a tie going to the even one. -/
def roundHalfEven (num den : Nat) : Nat :=
  let q := num / den
  let r := num % den
  if 2 * r < den then q
  else if den < 2 * r then q + 1
  else if q % 2 = 0 then q else q + 1

/-- The quotient in units of `2 ^ e`, as a fraction. -/
def scaled (num den : Nat) (e : Int) : Nat × Nat :=
  let p := powerOfTwo e
  (num * p.2, den * p.1)

/-- The least exponent that a quotient of two positive numbers may have, by the numbers of their
binary digits. -/
def guess (num den : Nat) : Int := max leastExponent ((Nat.log2 num : Int) - Nat.log2 den - 53)

/-- The exponent at which the quotient of two positive numbers has 53 binary digits, or the least
exponent if that is greater. -/
def exponentFor (num den : Nat) : Int :=
  let s := scaled num den (guess num den)
  if s.1 / s.2 < Nat.pow 2 53 then guess num den else guess num den + 1

/-- The mantissa and the exponent of the quotient of two positive numbers, rounded to the nearest
ones; a tie goes to the even mantissa, and `2 ^ 53` is carried to the next exponent. -/
def rounded (num den : Nat) : Nat × Int :=
  let e := exponentFor num den
  let s := scaled num den e
  let m := roundHalfEven s.1 s.2
  if m = Nat.pow 2 53 then (Nat.pow 2 52, e + 1) else (m, e)

/-! ## The form of rounded quotients -/

section Rounding

variable {num den n : Nat} {e : Int}

/-- Rounding goes to one of the two neighbours. -/
theorem roundHalfEven_bounds (num den : Nat) :
    num / den ≤ roundHalfEven num den ∧ roundHalfEven num den ≤ num / den + 1 := by
  unfold roundHalfEven
  dsimp only
  split
  · omega
  · split
    · omega
    · split <;> omega

/-- The two parts of a power of two are powers of two themselves. -/
theorem powerOfTwo_eq (e : Int) :
    powerOfTwo e = (Nat.pow 2 e.toNat, Nat.pow 2 (-e).toNat) := by
  cases e with
  | ofNat n => cases n <;> rfl
  | negSucc n => rfl

/-- A quotient in units of `2 ^ e` is below `2 ^ n` if the digits of its two parts say so. -/
theorem scaled_lt (hden : 0 < den) (h : (Nat.log2 num : Int) + 1 ≤ n + Nat.log2 den + e) :
    (scaled num den e).1 / (scaled num den e).2 < Nat.pow 2 n := by
  simp only [scaled, powerOfTwo_eq, Nat.pow_eq]
  have hpos : 0 < den * 2 ^ e.toNat := Nat.mul_pos hden (Nat.two_pow_pos _)
  rw [Nat.div_lt_iff_lt_mul hpos]
  calc num * 2 ^ (-e).toNat
      < 2 ^ (num.log2 + 1) * 2 ^ (-e).toNat :=
        Nat.mul_lt_mul_of_pos_right Nat.lt_log2_self (Nat.two_pow_pos _)
    _ ≤ 2 ^ n * (2 ^ den.log2 * 2 ^ e.toNat) := by
        rw [← Nat.pow_add, ← Nat.pow_add, ← Nat.pow_add]
        exact Nat.pow_le_pow_right (by decide) (by omega)
    _ ≤ 2 ^ n * (den * 2 ^ e.toNat) :=
        Nat.mul_le_mul_left _ (Nat.mul_le_mul_right _ (Nat.log2_self_le (Nat.ne_of_gt hden)))

/-- A quotient in units of `2 ^ e` is at least `2 ^ n` if the digits of its two parts say so. -/
theorem le_scaled (hnum : 0 < num) (hden : 0 < den)
    (h : n + Nat.log2 den + 1 + e ≤ (Nat.log2 num : Int)) :
    Nat.pow 2 n ≤ (scaled num den e).1 / (scaled num den e).2 := by
  simp only [scaled, powerOfTwo_eq, Nat.pow_eq]
  have hpos : 0 < den * 2 ^ e.toNat := Nat.mul_pos hden (Nat.two_pow_pos _)
  rw [Nat.le_div_iff_mul_le hpos]
  calc 2 ^ n * (den * 2 ^ e.toNat)
      ≤ 2 ^ n * (2 ^ (den.log2 + 1) * 2 ^ e.toNat) :=
        Nat.mul_le_mul_left _ (Nat.mul_le_mul_right _ (Nat.le_of_lt Nat.lt_log2_self))
    _ ≤ 2 ^ num.log2 * 2 ^ (-e).toNat := by
        rw [← Nat.pow_add, ← Nat.pow_add, ← Nat.pow_add]
        exact Nat.pow_le_pow_right (by decide) (by omega)
    _ ≤ num * 2 ^ (-e).toNat := Nat.mul_le_mul_right _ (Nat.log2_self_le (Nat.ne_of_gt hnum))

/-- In twice the unit, half as much is left. -/
theorem le_scaled_succ (hden : 0 < den)
    (h : Nat.pow 2 (n + 1) ≤ (scaled num den e).1 / (scaled num den e).2) :
    Nat.pow 2 n ≤ (scaled num den (e + 1)).1 / (scaled num den (e + 1)).2 := by
  simp only [scaled, powerOfTwo_eq, Nat.pow_eq] at h ⊢
  have hpos : ∀ k : Nat, 0 < den * 2 ^ k := fun k => Nat.mul_pos hden (Nat.two_pow_pos _)
  rw [Nat.le_div_iff_mul_le (hpos _)] at h ⊢
  -- the powers of both units, multiplied out crosswise
  have hunits : 2 ^ (e + 1).toNat * 2 ^ (-e).toNat = 2 * (2 ^ e.toNat * 2 ^ (-(e + 1)).toNat) := by
    rw [← Nat.pow_add, ← Nat.pow_add, ← Nat.pow_succ']
    congr 1
    omega
  have hdigit : 2 ^ (n + 1) = 2 * 2 ^ n := Nat.pow_succ'
  refine Nat.le_of_mul_le_mul_right ?_ (Nat.two_pow_pos (-e).toNat)
  calc 2 ^ n * (den * 2 ^ (e + 1).toNat) * 2 ^ (-e).toNat
      = 2 ^ n * den * (2 ^ (e + 1).toNat * 2 ^ (-e).toNat) := by simp only [Nat.mul_assoc]
    _ = 2 ^ (n + 1) * (den * 2 ^ e.toNat) * 2 ^ (-(e + 1)).toNat := by
        rw [hunits, hdigit]
        ac_rfl
    _ ≤ num * 2 ^ (-e).toNat * 2 ^ (-(e + 1)).toNat := Nat.mul_le_mul_right _ h
    _ = num * 2 ^ (-(e + 1)).toNat * 2 ^ (-e).toNat := Nat.mul_right_comm _ _ _

/-- The exponent that is found leaves a quotient of 53 binary digits, or of fewer if it is the least
exponent. -/
theorem exponentFor_spec (hnum : 0 < num) (hden : 0 < den) :
    let e := exponentFor num den
    let q := (scaled num den e).1 / (scaled num den e).2
    leastExponent ≤ e ∧ q < Nat.pow 2 53 ∧ (e = leastExponent ∨ Nat.pow 2 52 ≤ q) := by
  have hguess : leastExponent ≤ guess num den := by
    unfold guess
    omega
  have habove : (Nat.log2 num : Int) - Nat.log2 den - 53 ≤ guess num den := by
    unfold guess
    omega
  intro e q
  unfold q e exponentFor
  dsimp only
  split
  · next hlt =>
    refine ⟨hguess, hlt, ?_⟩
    by_cases hleast : guess num den = leastExponent
    · exact .inl hleast
    · refine .inr (le_scaled hnum hden ?_)
      unfold guess at hleast ⊢
      omega
  · next hge =>
    exact ⟨by omega, scaled_lt hden (by omega), .inr (le_scaled_succ hden (Nat.le_of_not_lt hge))⟩

/-- A rounded quotient is in canonical form, unless it is too great. -/
theorem isCanonical_rounded (hnum : 0 < num) (hden : 0 < den)
    (h : (rounded num den).2 ≤ greatestExponent) :
    IsCanonical (rounded num den).1 (rounded num den).2 := by
  obtain ⟨hleast, hlt, hnormal⟩ := exponentFor_spec hnum hden
  obtain ⟨hfloor, hceil⟩ := roundHalfEven_bounds (scaled num den (exponentFor num den)).1
    (scaled num den (exponentFor num den)).2
  unfold rounded at h ⊢
  dsimp only at h ⊢
  split
  · next hcarry =>
    rw [if_pos hcarry] at h
    have hdigits : Nat.pow 2 52 < Nat.pow 2 53 := by decide
    exact ⟨by omega, h, hdigits, .inr (Nat.le_refl _)⟩
  · next hcarry =>
    rw [if_neg hcarry] at h
    exact ⟨hleast, h, by omega, hnormal.imp_right fun hq => Nat.le_trans hq hfloor⟩

end Rounding

/-- The binary64 number nearest to `num / den`; a tie goes to the even mantissa. What rounds beyond
the largest finite number is refused, and so is a quotient by zero. -/
def nearest? (negative : Bool) (num den : Nat) : Option Double :=
  if hden : den = 0 then none
  else if hnum : num = 0 then some (zero negative)
  else
    let r := rounded num den
    if h : r.2 ≤ greatestExponent then
      some ⟨negative, r.1, r.2,
        isCanonical_rounded (Nat.pos_of_ne_zero hnum) (Nat.pos_of_ne_zero hden) h⟩
    else none

/-- The magnitude as a numerator and a denominator. -/
def fraction (x : Double) : Nat × Nat :=
  let p := powerOfTwo x.exponent
  (x.mantissa * p.1, p.2)

/-- The product, rounded once; the sign is that of the left factor. -/
def mul? (x y : Double) : Option Double :=
  let a := x.fraction
  let b := y.fraction
  nearest? x.negative (a.1 * b.1) (a.2 * b.2)

/-- The quotient, rounded once; the sign is that of the dividend. -/
def div? (x y : Double) : Option Double :=
  let a := x.fraction
  let b := y.fraction
  nearest? x.negative (a.1 * b.2) (a.2 * b.1)

end Double

end EventSchema
