import SexpEditing.Number.Binary64
import SexpEditing.Text.Space

/-!
# Numerals in texts

A text is a numeral if nothing but white space stands around the digits. Whole numbers may be
written to the bases two, eight and sixteen, and a decimal numeral may have a sign, a fraction and
an exponent. A blank text stands for zero.

## Main definitions

* `Numeral.digitsFront`, `Numeral.digitsValue`: the digits at the front of a text, and their value
* `Decimal.ofText?`: the numeral that a text is
-/

namespace SexpEditing

open CodeUnit

/-- The value of a hexadecimal digit. -/
def CodeUnit.hexDigit? (c : CodeUnit) : Option Nat :=
  if c.isDigit then some (c.toNat - 0x30)
  else if 0x41 ≤ c ∧ c ≤ 0x46 then some (c.toNat - 0x37)
  else if 0x61 ≤ c ∧ c ≤ 0x66 then some (c.toNat - 0x57)
  else none

namespace Numeral

/-- The number that some digits stand for. -/
def digitsValue (base : Nat) (digits : List Nat) : Nat :=
  digits.foldl (fun n d => base * n + d) 0

/-- The digits at the front of a text, and the text after them. -/
def digitsFront (t : Text) : List Nat × Text :=
  ((t.takeWhile isDigit).map fun c => c.toNat - 0x30, t.dropWhile isDigit)

/-- Whether a text begins with a minus sign, and the text after its sign, if it has one. -/
def signFront : Text → Bool × Text
  | hyphen :: rest => (true, rest)
  | plusSign :: rest => (false, rest)
  | t => (false, t)

/-- The base of whole numbers after a zero and this letter. -/
def base? (c : CodeUnit) : Option Nat :=
  if c = 0x58 ∨ c = 0x78 then some 16
  else if c = 0x4F ∨ c = 0x6F then some 8
  else if c = 0x42 ∨ c = 0x62 then some 2
  else none

/-- The whole number that a text of digits stands for in a base up to sixteen. -/
def whole? (base : Nat) (t : Text) : Option Nat :=
  if t.isEmpty then none
  else (t.mapM fun (c : CodeUnit) => c.hexDigit?.filter (· < base)).map (digitsValue base)

/-- The exponent that a text is, which may be left out. -/
def exponent? : Text → Option Int
  | [] => some 0
  | e :: rest =>
    if e = 0x45 ∨ e = 0x65 then
      let (negative, rest) := signFront rest
      match digitsFront rest with
      | (d :: digits, []) =>
        let n : Int := digitsValue 10 (d :: digits)
        some (if negative then -n else n)
      | _ => none
    else none

/-- The decimal numeral that a text is, after its sign. There are digits before the decimal point or
after it. -/
def decimal? (negative : Bool) (t : Text) : Option Decimal :=
  let (whole, rest) := digitsFront t
  let (fraction, rest) := match rest with
    | fullStop :: afterPoint => digitsFront afterPoint
    | rest => ([], rest)
  if (whole ++ fraction).isEmpty then none
  else (exponent? rest).map fun e =>
    ⟨negative, digitsValue 10 (whole ++ fraction), e - fraction.length⟩

/-- The numeral that a text is that may have a sign. -/
def signed? (t : Text) : Option Decimal :=
  let (negative, rest) := signFront t
  if rest = Text.ofString "Infinity" then some (.infinity negative) else decimal? negative rest

/-- The numeral that a text without white space around it is. -/
def trimmed? (t : Text) : Option Decimal :=
  match t with
  | [] => some (.ofNat 0)
  | 0x30 :: letter :: digits =>
    match base? letter with
    | some base => (whole? base digits).map Decimal.ofNat
    | none => signed? t
  | _ => signed? t

end Numeral

/-- The numeral that a text is. -/
def Decimal.ofText? (t : Text) : Option Decimal := Numeral.trimmed? t.trim

end SexpEditing
