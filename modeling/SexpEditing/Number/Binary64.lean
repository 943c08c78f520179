/-!
# Binary64 numbers

Numbers in settings are read as the nearest number with 53 significant bits, and written with the
fewest digits that are read back as the same number. Both are computed exactly on natural numbers.

## Main definitions

* `roundQuotient`: a quotient rounded to the nearest natural number, ties to the even one
* `Binary64.nearest`: the nearest binary64 number to a quotient
* `Binary64.shortest`: the fewest digits that stand for a positive number
* `Binary64.render`: how a natural number is written
* `Decimal`, `Decimal.nearestNat?`: a decimal numeral, and the natural number that it is read as
* `Decimal.units`: the number that a numeral is read as, as a whole number of least units
* `Decimal.render`: how the number is written that a numeral is read as
-/

namespace SexpEditing

/-- The natural number nearest to `num / den`; of two equally near ones, the even one. -/
def roundQuotient (num den : Nat) : Nat :=
  let q := num / den
  let r := num % den
  if 2 * r < den ∨ (2 * r = den ∧ q % 2 = 0) then q else q + 1

/-- A power of two. -/
def powerOfTwo (n : Nat) : Nat := Nat.pow 2 n

/-- A power of ten. -/
def powerOfTen (n : Nat) : Nat := Nat.pow 10 n

namespace Binary64

/-- The quotient `num / den` divided by a power of two, as a numerator and a denominator. -/
def scale (num den : Nat) (exponent : Int) : Nat × Nat :=
  if 0 ≤ exponent then (num, den * powerOfTwo exponent.toNat)
  else (num * powerOfTwo (-exponent).toNat, den)

/-- The exponent of the last bit of the binary64 numbers near a positive quotient. There are 53
significant bits, but none counts less than `2 ^ (-1074)`. -/
def lastBit (num den : Nat) : Int :=
  let low : Int := (num.log2 : Int) - den.log2 - 53
  let (n, d) := scale num den low
  max (-1074) (if n / d < powerOfTwo 53 then low else low + 1)

/-- The binary64 number nearest to a positive quotient, as a significand and an exponent of two. The
significand is below `2 ^ 53`, so that a number has one such pair. Exponents are not bounded
above. -/
def nearest (num den : Nat) : Nat × Int :=
  let exponent := lastBit num den
  let (n, d) := scale num den exponent
  let significand := roundQuotient n d
  if significand = powerOfTwo 53 then (powerOfTwo 52, exponent + 1) else (significand, exponent)

/-- The least power of two that is too large. -/
def limit : Nat := powerOfTwo 1024

/-- The natural number `significand * 2 ^ exponent`, if it is one and not too large. -/
def toNat? : Nat × Int → Option Nat
  | (significand, exponent) =>
    if 0 ≤ exponent then
      let n := significand * powerOfTwo exponent.toNat
      if n < limit then some n else none
    else
      let d := powerOfTwo (-exponent).toNat
      if significand % d = 0 then some (significand / d) else none

/-- The nearest binary64 number to a natural number. -/
def ofNat (n : Nat) : Nat :=
  if n < powerOfTwo 53 then n else ((toNat? (nearest n 1)).getD n)

/-! ### Fewest digits -/

/-- The number `significand * 2 ^ exponent` as a quotient. -/
def quotient : Nat × Int → Nat × Nat
  | (significand, exponent) => scale significand 1 (-exponent)

/-- The number `digits * 10 ^ exponent` as a quotient. -/
def decimalQuotient (digits : Nat) (exponent : Int) : Nat × Nat :=
  if 0 ≤ exponent then (digits * powerOfTen exponent.toNat, 1)
  else (digits, powerOfTen (-exponent).toNat)

/-- Whether the number `digits * 10 ^ exponent` is read as the binary64 number `x`. -/
def readsAs (x : Nat × Int) (digits : Nat) (exponent : Int) : Bool :=
  let (n, d) := decimalQuotient digits exponent
  decide (0 < digits) && nearest n d == x

/-- The binary64 number `x` divided by `10 ^ exponent`, as a quotient. -/
def overPowerOfTen (x : Nat × Int) (exponent : Int) : Nat × Nat :=
  let (num, den) := quotient x
  let (n, d) := decimalQuotient 1 (-exponent)
  (num * n, den * d)

/-- The multiple of `10 ^ exponent` next to the binary64 number `x` that is read as `x`, as its
digits before the power of ten. Of two of them the nearer one counts, and of two equally near ones
the even one. -/
def digitsAt? (x : Nat × Int) (exponent : Int) : Option Nat :=
  let (num, den) := overPowerOfTen x exponent
  let below := num / den
  match readsAs x below exponent, readsAs x (below + 1) exponent with
  | true, true => some (roundQuotient num den)
  | true, false => some below
  | false, true => some (below + 1)
  | false, false => none

/-- The fewest digits that are read as `x`, and the power of ten of the last one, which is at most
`exponent`. The number is rounded where `fuel` more digits do not suffice. -/
def shortestFrom (x : Nat × Int) : (fuel : Nat) → (exponent : Int) → Nat × Int
  | 0, exponent =>
    let (num, den) := overPowerOfTen x exponent
    (roundQuotient num den, exponent)
  | fuel + 1, exponent =>
    match digitsAt? x exponent with
    | some digits => (digits, exponent)
    | none => shortestFrom x fuel (exponent - 1)

/-- The number of digits of a natural number. -/
def width (n : Nat) : Nat := (toString n).length

/-- A power of ten that is at least a positive quotient. -/
def topExponent (num den : Nat) : Int :=
  if den ≤ num then width (num / den) else 1 - (width (den / num) : Int)

/-- The fewest digits that are read as a positive binary64 number, and the power of ten of the last
one. Seventeen digits suffice for any. -/
def shortest (x : Nat × Int) : Nat × Int :=
  let (num, den) := quotient x
  shortestFrom x 20 (topExponent num den)

/-- How the number `digits * 10 ^ exponent` is written: with a decimal point up to twenty-one digits
before it and up to six zeros after it, and in scientific notation beyond. -/
def layOut (digits : Nat) (exponent : Int) : String :=
  let text := toString digits
  let point := text.length + exponent
  if 0 ≤ exponent ∧ point ≤ 21 then
    text ++ String.ofList (List.replicate exponent.toNat '0')
  else if 0 < point ∧ point ≤ 21 then
    String.ofList (text.toList.take point.toNat) ++ "." ++
      String.ofList (text.toList.drop point.toNat)
  else if -6 < point ∧ point ≤ 0 then
    "0." ++ String.ofList (List.replicate (-point).toNat '0') ++ text
  else
    let mantissa := match text.toList with
      | d :: e :: more => d :: '.' :: e :: more
      | digits => digits
    String.ofList mantissa ++ (if 0 < point then "e+" else "e") ++ toString (point - 1)

/-- How the nearest binary64 number to a natural number is written. -/
def render (n : Nat) : String :=
  if n < powerOfTwo 53 then toString n
  else
    let (digits, exponent) := shortest (nearest n 1)
    layOut digits exponent

end Binary64

/-- A decimal numeral: a sign, the digits as one number, and the power of ten of the last digit. -/
structure Decimal where
  negative : Bool
  digits : Nat
  exponent : Int
deriving DecidableEq, Repr

namespace Decimal

/-- The numeral of a natural number. -/
def ofNat (n : Nat) : Decimal := ⟨false, n, 0⟩

/-- A numeral that is too large for any number. -/
def infinity (negative : Bool) : Decimal := ⟨negative, 1, 309⟩

/-- The number of digits. -/
def width (d : Decimal) : Nat := Binary64.width d.digits

/-- The binary64 number nearest to the digits of a numeral, without the sign, as a significand and
an exponent of two. A numeral that is too small counts as zero; one that is far too large stands
for no number. -/
def nearest? (d : Decimal) : Option (Nat × Int) :=
  let size := d.width + d.exponent
  if d.digits = 0 ∨ size < -330 then some (0, 0)
  else if 310 < size then none
  else
    let (num, den) := Binary64.decimalQuotient d.digits d.exponent
    some (Binary64.nearest num den)

/-- The natural number that is the nearest binary64 number to a numeral, if that is a natural
number. Zero has no sign. -/
def nearestNat? (d : Decimal) : Option Nat :=
  let magnitude := d.nearest?.bind Binary64.toNat?
  if d.negative then magnitude.filter (· == 0) else magnitude

/-- The number of least units, of `2 ^ (-1074)` each, in the least power of two that is too
large. -/
def unitLimit : Nat := Binary64.limit * powerOfTwo 1074

/-- The binary64 number nearest to the digits of a numeral, without the sign, as a number of least
units. All that is too large counts the same. -/
def magnitude (d : Decimal) : Nat :=
  match d.nearest? with
  | some (significand, exponent) =>
    min (significand * powerOfTwo (exponent + 1074).toNat) unitLimit
  | none => unitLimit

/-- The binary64 number nearest to a numeral as a number of least units. Zero has no sign, and all
that is too large counts the same. -/
def units (d : Decimal) : Int := if d.negative then -d.magnitude else d.magnitude

/-- Whether two numerals are read as the same number. -/
def sameNumber (d e : Decimal) : Bool := d.units == e.units

/-- The whole part of the number that a numeral is read as, or zero for a negative one. -/
def floor (d : Decimal) : Nat := d.units.toNat / powerOfTwo 1074

/-- How the number is written that a numeral is read as. -/
def render (d : Decimal) : String :=
  let text :=
    if d.magnitude = unitLimit then "Infinity"
    else
      let (digits, exponent) := Binary64.shortest (d.nearest?.getD (0, 0))
      Binary64.layOut digits exponent
  if d.magnitude = 0 then "0"
  else if d.negative then "-" ++ text
  else text

end Decimal

end SexpEditing
