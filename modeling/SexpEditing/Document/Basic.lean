import SexpEditing.Search
import SexpEditing.Text.Space

/-!
# Documents

A document is a text under edit, with the offsets at which its lines start and a version that grows
with every edit. Lines end at line feeds; a carriage return before a line feed, or at the very end,
belongs to the end of the line as well. The units are kept in an array, so that reading a line does
not walk through the text before it.

Offsets outside the text count as the nearest end. Lines are not clamped: asking for a line that
does not exist is an error.

## Main definitions

* `Document.ofText`, `Document.replaceRange`: a new document, and one edit
* `Document.text`, `Document.readRange`: the whole text, and the text between two offsets
* `Document.lineAt`, `Document.columnAt`, `Document.lineStart`: lines and columns of offsets
* `Document.lineText`: the text of a line without its end
* `Document.lineIndentation`, `Document.setLineIndentation`: the leading blanks of a line
-/

namespace SexpEditing

open CodeUnit

/-- The offsets after the line feeds of a text that starts at `offset`. -/
def lineStartsAfter (offset : Nat) : Text → List Nat
  | [] => []
  | c :: rest =>
    if c = lineFeed then (offset + 1) :: lineStartsAfter (offset + 1) rest
    else lineStartsAfter (offset + 1) rest

/-- The offsets at which the lines of a text start. -/
def lineStartsOf (t : Text) : Array Nat := (0 :: lineStartsAfter 0 t).toArray

/-- A text under edit. -/
structure Document where
  /-- The units of the text. -/
  units : Array CodeUnit
  /-- The offset of the first unit of each line. -/
  lineStarts : Array Nat
  /-- The number of edits so far, and one. -/
  version : Nat
  lineStarts_eq : lineStarts = lineStartsOf units.toList
deriving Repr

/-- Why a document refuses a request. -/
inductive DocumentError
  /-- There is no line with this number; the last line is given beside it. -/
  | lineOutOfRange (line lastLine : Int)
  /-- These offsets do not delimit a part of a document of this length. -/
  | invalidRange (start stop length : Int)
deriving DecidableEq, Repr

/-- The wording of an error. -/
def DocumentError.message : DocumentError → String
  | .lineOutOfRange line lastLine => s!"line {line} out of range (0-{lastLine})"
  | .invalidRange start stop length =>
    s!"invalid range [{start}, {stop}) for a document of length {length}"

/-- The leading blanks of a line. -/
structure LineIndentation where
  /-- The offset of the first unit of the line. -/
  start : Int
  /-- The number of leading blanks. -/
  width : Nat
  /-- Whether the line holds nothing else. -/
  blank : Bool
deriving DecidableEq, Repr

namespace Document

/-- A document with a text, at a version. -/
def atVersion (version : Nat) (t : Text) : Document := ⟨t.toArray, lineStartsOf t, version, rfl⟩

/-- A document that was not edited yet. -/
def ofText (t : Text) : Document := atVersion 1 t

/-- The text of a document. -/
def text (d : Document) : Text := d.units.toList

/-- The number of units. -/
def length (d : Document) : Int := d.units.size

/-- The number of lines; there is always one. -/
def lineCount (d : Document) : Int := d.lineStarts.size

/-- The nearest offset that lies in the text. -/
def clamp (d : Document) (offset : Int) : Nat := min offset.toNat d.units.size

/-- The text between two offsets, which may be given in either order and may lie outside. -/
def readRange (d : Document) (start stop : Int) : Text :=
  let lo := min (d.clamp start) (d.clamp stop)
  let hi := max (d.clamp start) (d.clamp stop)
  (d.units.extract lo hi).toList

/-- The line that holds an offset. -/
def lineAt (d : Document) (offset : Int) : Int :=
  let place := d.clamp offset
  match search d.lineStarts fun start => compare place start with
  | .found i => i
  | .gap i => i - 1

/-- The distance of an offset from the start of its line. -/
def columnAt (d : Document) (offset : Int) : Int :=
  d.clamp offset - d.lineStarts[(d.lineAt offset).toNat]?.getD 0

/-- The offset at which a line starts. -/
def lineStart (d : Document) (line : Int) : Except DocumentError Int :=
  if line < 0 then .error (.lineOutOfRange line (d.lineCount - 1))
  else
    match d.lineStarts[line.toNat]? with
    | some start => .ok start
    | none => .error (.lineOutOfRange line (d.lineCount - 1))

/-- Replaces the text between two offsets. -/
def replaceRange (d : Document) (start stop : Int) (replacement : Text) :
    Except DocumentError Document :=
  if start < 0 ∨ stop < start ∨ d.length < stop then
    .error (.invalidRange start stop d.length)
  else
    let text := d.text.take start.toNat ++ replacement ++ d.text.drop stop.toNat
    .ok (atVersion (d.version + 1) text)

/-- A text without the carriage return at its end, if it has one. -/
def dropFinalReturn (t : Text) : Text :=
  if t.getLast? = some carriageReturn then t.dropLast else t

/-- The text of a line, without the units that end it. -/
def lineText (d : Document) (line : Int) : Except DocumentError Text := do
  let start ← d.lineStart line
  let stop ← if line + 1 < d.lineCount then (· - 1) <$> d.lineStart (line + 1) else .ok d.length
  return dropFinalReturn (d.readRange start stop)

/-- The leading blanks of a line. -/
def lineIndentation (d : Document) (line : Int) : Except DocumentError LineIndentation := do
  let text ← d.lineText line
  let width := (text.takeWhile isIndentation).length
  return ⟨← d.lineStart line, width, width == text.length⟩

/-- Replaces the leading blanks of a line by `column` spaces, or by nothing if `column` is
negative. Answers whether the text changed; a line that is indented so already is left alone. -/
def setLineIndentation (d : Document) (line column : Int) :
    Except DocumentError (Document × Bool) := do
  let ⟨start, width, _⟩ ← d.lineIndentation line
  let blanks := List.replicate column.toNat space
  if d.readRange start (start + width) = blanks then
    return (d, false)
  else
    return (← d.replaceRange start (start + width) blanks, true)

@[simp] theorem text_atVersion (version : Nat) (t : Text) : (atVersion version t).text = t := rfl

@[simp] theorem version_atVersion (version : Nat) (t : Text) :
    (atVersion version t).version = version := rfl

@[simp] theorem text_ofText (t : Text) : (ofText t).text = t := rfl

@[simp] theorem version_ofText (t : Text) : (ofText t).version = 1 := rfl

@[simp] theorem length_text (d : Document) : (d.text.length : Int) = d.length := rfl

theorem clamp_eq (d : Document) (offset : Int) : d.clamp offset = d.text.clamp offset := rfl

theorem readRange_eq_slice (d : Document) (start stop : Int) :
    d.readRange start stop = d.text.slice start stop := by
  simp [readRange, Text.slice, clamp_eq, text, List.extract_eq_take_drop, List.drop_take]

/-- A document is known by its text and its version. -/
theorem eq_atVersion (d : Document) : d = atVersion d.version d.text := by
  obtain ⟨units, _, version, rfl⟩ := d
  rfl

end Document

end SexpEditing
