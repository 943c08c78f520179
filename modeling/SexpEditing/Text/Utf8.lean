import SexpEditing.Text.Basic

/-!
# Reading bytes as text

Bytes are read as UTF-8. Where they are not well-formed, each longest piece that begins a
well-formed sequence, or else the single byte, is read as one replacement character.

## Main definitions

* `Utf8.sequence?`: what a first byte announces
* `Utf8.decode`: the text of some bytes
* `Utf8.decodeFile`: the same without a byte order mark at the start
-/

namespace SexpEditing.Utf8

/-- The character that stands for what cannot be read. -/
def replacement : CodeUnit := 0xFFFD

/-- The mark that may begin a file. -/
def byteOrderMark : CodeUnit := 0xFEFF

/-- What the first byte of a sequence announces: its part of the code point, the number of bytes
that follow, and the bounds of the next one. Bytes after that lie between 0x80 and 0xBF. The bounds
leave out surrogates, code points that are too large, and longer forms than needed. -/
def sequence? (b : UInt8) : Option (Nat × Nat × UInt8 × UInt8) :=
  if 0xC2 ≤ b ∧ b ≤ 0xDF then some (b.toNat - 0xC0, 1, 0x80, 0xBF)
  else if b = 0xE0 then some (0, 2, 0xA0, 0xBF)
  else if b = 0xED then some (0xD, 2, 0x80, 0x9F)
  else if 0xE1 ≤ b ∧ b ≤ 0xEF then some (b.toNat - 0xE0, 2, 0x80, 0xBF)
  else if b = 0xF0 then some (0, 3, 0x90, 0xBF)
  else if 0xF1 ≤ b ∧ b ≤ 0xF3 then some (b.toNat - 0xF0, 3, 0x80, 0xBF)
  else if b = 0xF4 then some (4, 3, 0x80, 0x8F)
  else none

/-- A sequence that is being read: the code point so far, the number of bytes still missing, and
the bounds of the next one. -/
structure Partial where
  point : Nat
  missing : Nat
  low : UInt8
  high : UInt8
deriving DecidableEq, Repr

/-- A byte outside of a sequence: the sequence that it begins, if any, and what is read. -/
def first (b : UInt8) : Option Partial × Text :=
  if b < 0x80 then (none, [UInt16.ofNat b.toNat])
  else
    match sequence? b with
    | some (point, missing, low, high) => (some ⟨point, missing, low, high⟩, [])
    | none => (none, [replacement])

/-- One byte: the sequence that is being read after it, and what is read. A byte that does not fit
ends the sequence and is read anew. -/
def step (pending : Option Partial) (b : UInt8) : Option Partial × Text :=
  match pending with
  | none => first b
  | some p =>
    if p.low ≤ b ∧ b ≤ p.high then
      let point := p.point * 0x40 + (b.toNat - 0x80)
      if p.missing ≤ 1 then (none, CodeUnit.ofCodePoint point)
      else (some ⟨point, p.missing - 1, 0x80, 0xBF⟩, [])
    else
      let (next, text) := first b
      (next, replacement :: text)

/-- What some bytes are read as, after the bytes of a sequence that is being read. -/
def decodeFrom (pending : Option Partial) : List UInt8 → Text
  | [] => if pending.isSome then [replacement] else []
  | b :: rest =>
    let (pending, text) := step pending b
    text ++ decodeFrom pending rest

/-- The text of some bytes. -/
def decode (bytes : List UInt8) : Text := decodeFrom none bytes

/-- The text of the bytes of a file: one byte order mark at its start is left out. -/
def decodeFile (bytes : List UInt8) : Text :=
  match decode bytes with
  | [] => []
  | c :: rest => if c = byteOrderMark then rest else c :: rest

end SexpEditing.Utf8
