import EventSchema.Decimal.Literal
import EventSchema.Text.Quoted

/-!
# The core schema of YAML

What a scalar may spell besides a string: null, a boolean, an integer or a real number. Each is
recognized by the form of the text alone.
-/

namespace EventSchema.Markup.Yaml

/-- A real number of a YAML text. -/
inductive Real where
  | finite (value : Double)
  | infinite (negative : Bool)
  | nan
  deriving DecidableEq

namespace Real

/-- Numeric equality, except that a number that is not one equals itself. -/
def same : Real → Real → Bool
  | finite x, finite y => x.same y
  | infinite a, infinite b => a == b
  | nan, nan => true
  | _, _ => false

end Real

namespace CoreSchema

/-- Whether a text spells null. -/
def isNull (text : String) : Bool := ["null", "Null", "NULL", "~"].contains text

/-- The boolean that a text spells. -/
def bool? (text : String) : Option Bool :=
  if ["true", "True", "TRUE"].contains text then some true
  else if ["false", "False", "FALSE"].contains text then some false
  else none

/-- The value of at least one digit in some radix. -/
def digits? (radix : Nat) (cs : List Char) : Option Nat :=
  if cs = [] then none
  else
    cs.foldlM (fun n c => do
      let d ← Text.Quoted.hexValue? c
      if d < radix then some (radix * n + d) else none) 0

/-- The text after a sign. -/
def unsigned (cs : List Char) : List Char :=
  match cs with
  | '+' :: rest => rest
  | '-' :: rest => rest
  | _ => cs

/-- Decimal digits after a leading zero are a string, not a number. -/
def hasLeadingZero (cs : List Char) : Bool :=
  match unsigned cs with
  | '0' :: c :: rest => (c :: rest).all Decimal.isDigit
  | _ => false

/-- The natural number that a text without a sign spells. -/
def natural? : List Char → Option Nat
  | '0' :: 'x' :: rest => digits? 16 rest
  | '0' :: 'o' :: rest => digits? 8 rest
  | '0' :: 'b' :: rest => digits? 2 rest
  | cs => if hasLeadingZero cs then none else digits? 10 cs

/-- The integer that a text spells, within 128 bits. What lies beyond is a real number. -/
def integer? (cs : List Char) : Option Int :=
  match cs with
  | '-' :: rest => do
    let n ← natural? rest
    if n ≤ Nat.pow 2 127 then some (-(n : Int)) else none
  | _ => do
    let n ← natural? (match cs with | '+' :: rest => rest | _ => cs)
    if n < Nat.pow 2 128 then some n else none

/-- The exponent after the digits of a number: its letter, a sign and digits, or nothing. -/
def exponent? (cs : List Char) : Option Int :=
  let digits (cs : List Char) : Option Nat :=
    if cs = [] || !cs.all Decimal.isDigit then none else some (Decimal.valueOf cs)
  match cs with
  | [] => some 0
  | e :: rest =>
    if e = 'e' ∨ e = 'E' then
      match rest with
      | '-' :: ds => (digits ds).map fun n => -(n : Int)
      | '+' :: ds => (digits ds).map (fun n => (n : Int))
      | ds => (digits ds).map (fun n => (n : Int))
    else none

/-- The finite number that a decimal literal spells: digits with or without a point, at least one,
and an exponent. -/
def decimal? (negative : Bool) (cs : List Char) : Option Double := do
  let whole := cs.takeWhile Decimal.isDigit
  let rest := cs.drop whole.length
  let (fraction, rest) := match rest with
    | '.' :: rest =>
      let fraction := rest.takeWhile Decimal.isDigit
      (fraction, rest.drop fraction.length)
    | _ => ([], rest)
  let e ← exponent? rest
  if whole = [] ∧ fraction = [] then none
  Decimal.nearest? negative (Decimal.valueOf (whole ++ fraction)) (e - fraction.length)

/-- Whether a text spells infinity, its sign apart. -/
def isInfinity (cs : List Char) : Bool := [".inf", ".Inf", ".INF"].contains (String.ofList cs)

/-- The real number that a text spells. A magnitude that is too large is none. -/
def real? (cs : List Char) : Option Real :=
  match cs with
  | '-' :: rest =>
    if isInfinity rest then some (.infinite true) else (decimal? true rest).map .finite
  | '+' :: rest =>
    if isInfinity rest then some (.infinite false) else (decimal? false rest).map .finite
  | _ =>
    if isInfinity cs then some (.infinite false)
    else if [".nan", ".NaN", ".NAN"].contains (String.ofList cs) then some .nan
    else (decimal? false cs).map .finite

end CoreSchema

end EventSchema.Markup.Yaml
