import SexpEditing.Text.Basic
import SexpEditing.Text.LetterCase

/-!
# Lower case

Each character gives way to its lower case. Two characters need more than the table: a capital I
with a dot becomes an i and a combining dot, and a capital sigma at the end of a word becomes a
final sigma.

## Main definitions

* `Text.codePoints`, `Text.ofCodePoints`: the characters of a text as code points, and back
* `Text.lowercase`: a text in lower case
-/

namespace SexpEditing.Text

open CodeUnit

/-- The code points of a text. A surrogate without its other half counts as a code point. -/
def codePoints : Text → List Nat
  | [] => []
  | [c] => [c.toNat]
  | c :: d :: rest =>
    if c.isHighSurrogate && d.isLowSurrogate then
      (0x10000 + (c.toNat - 0xD800) * 0x400 + (d.toNat - 0xDC00)) :: codePoints rest
    else c.toNat :: codePoints (d :: rest)

/-- The units of code points. -/
def ofCodePoints (points : List Nat) : Text := points.flatMap CodeUnit.ofCodePoint

/-- The lower case of a character, apart from its neighbours. -/
def lowerPoint (c : Nat) : List Nat :=
  if c = 0x130 then [0x69, 0x307]
  else
    match lowercaseRuns.find? fun run =>
      run.first ≤ c && c ≤ run.last && (c - run.first) % run.step == 0 with
    | some run => [((c : Int) + run.shift).toNat]
    | none => [c]

/-- Whether the first character that is not ignorable has a case. -/
def nextIsCased (points : List Nat) : Bool :=
  ((points.dropWhile (inRanges caseIgnorableRanges)).head?).any (inRanges casedRanges)

/-- The lower case of characters that follow others, given from the last to the first. A capital
sigma is final if a letter precedes it and none follows. -/
def lowerPoints (before : List Nat) : List Nat → List Nat
  | [] => []
  | c :: rest =>
    let lower :=
      if c = 0x3A3 then [if nextIsCased before && !nextIsCased rest then 0x3C2 else 0x3C3]
      else lowerPoint c
    lower ++ lowerPoints (c :: before) rest

/-- A text in lower case. -/
def lowercase (t : Text) : Text := ofCodePoints (lowerPoints [] t.codePoints)

end SexpEditing.Text
