import SexpEditing.Indent.Closers
import SexpEditing.Indent.Rules

/-!
# Indenting documents

## Main definitions

* `Document.computeIndent`: the edits that indent the line of an offset
* `Document.applyIndentEdits`: makes edits, from the bottom of the document up
* `Document.indentLine`, `Document.indentRegion`: indents one line, and the lines of a region
* `Document.newlineAndIndent`: breaks a line and indents the new one
-/

namespace SexpEditing

open CodeUnit

/-- Whether a position lies inside a string or a comment, one that runs to the end of the text
included: there the tokens stop before the text does. -/
def TokenIndex.insideText (index : TokenIndex) (position length : Int) : Bool :=
  let inToken := (index.scan position .backward true).any fun t =>
    (t.is .string || t.is .comment) && decide (position < t.stop)
  let covered := (index.tokens.back?.map Token.stop).getD 0
  inToken || decide (covered < length ∧ covered < position)

namespace Document

/-- The edits that indent the line of an offset. The first one is for that line; any others
re-align closer lines above it. A line that starts inside a string or a comment gets no edits,
since its leading blanks are part of that text. -/
def computeIndent (d : Document) (offset : Int) (table : IndentTable) :
    Except DocumentError (List IndentEdit) := do
  let nav := Navigator.ofDocument d table.maxSteps
  let line := d.lineAt offset
  let ⟨start, width, _⟩ ← d.lineIndentation line
  let position := start + width
  if nav.index.insideText position d.length then return []
  match ← nav.dedentPass line table.maxDedentSteps with
  | [] =>
    let ⟨current, parent⟩ := nav.contexts position
    let firstToken := (nav.index.scan position .forward false).bind fun t =>
      if t.start = position then some t.toLexeme else none
    return [⟨line, (IndentInput.mk current parent ⟨line, firstToken⟩ table).column⟩]
  | edits => return edits

/-- The edits from the bottom of the document up. Edits for the same line keep their order. -/
def bottomUp (edits : List IndentEdit) : List IndentEdit :=
  edits.mergeSort fun a b => decide (b.line ≤ a.line)

/-- Makes edits one by one and counts the lines whose text changed. An edit that fails ends the
work; those before it stay made. -/
def applyInOrder (d : Document) : List IndentEdit → Document × Except DocumentError Nat
  | [] => (d, .ok 0)
  | edit :: rest =>
    match d.setLineIndentation edit.line edit.column with
    | .error e => (d, .error e)
    | .ok (d, changed) =>
      let (d, count) := applyInOrder d rest
      (d, count.map (· + changed.toNat))

/-- Makes edits from the bottom of the document up and counts the lines whose text changed. -/
def applyIndentEdits (d : Document) (edits : List IndentEdit) :
    Document × Except DocumentError Nat :=
  d.applyInOrder (bottomUp edits)

/-- Indents the line of an offset and answers its new column. -/
def indentLine (d : Document) (offset : Int) (table : IndentTable) :
    Document × Except DocumentError Int :=
  match d.computeIndent offset table with
  | .error e => (d, .error e)
  | .ok [] => (d, (d.lineIndentation (d.lineAt offset)).map fun indentation => indentation.width)
  | .ok (edit :: rest) =>
    let (d, count) := d.applyIndentEdits (edit :: rest)
    (d, count.map fun _ => edit.column)

/-- Indents one line of a region, unless it is blank, and counts the lines whose text changed. -/
def indentRegionLine (d : Document) (line : Int) (table : IndentTable) :
    Document × Except DocumentError Nat :=
  match d.lineIndentation line with
  | .error e => (d, .error e)
  | .ok ⟨start, _, blank⟩ =>
    if blank then (d, .ok 0)
    else
      match d.computeIndent start table with
      | .error e => (d, .error e)
      | .ok edits => d.applyIndentEdits edits

/-- Indents some lines in order and counts the lines whose text changed. -/
def indentLines (d : Document) (table : IndentTable) : List Int →
    Document × Except DocumentError Nat
  | [] => (d, .ok 0)
  | line :: rest =>
    match d.indentRegionLine line table with
    | (d, .error e) => (d, .error e)
    | (d, .ok changed) =>
      let (d, count) := indentLines d table rest
      (d, count.map (changed + ·))

/-- The lines of a document from one to another. -/
def linesFrom (d : Document) (first last : Int) : List Int :=
  let first := max 0 first
  let last := min last (d.lineCount - 1)
  (List.range (last + 1 - first).toNat).map fun (i : Nat) => first + i

/-- Indents the lines from one to another, in order. Blank lines, and lines inside strings or
comments, are left alone. Answers the number of lines whose text changed. -/
def indentRegion (d : Document) (first last : Int) (table : IndentTable) :
    Document × Except DocumentError Nat :=
  d.indentLines table (d.linesFrom first last)

/-- Where a line is broken at an offset: before the blanks that precede the offset on its line. -/
def breakOffset (d : Document) (offset : Int) : Except DocumentError Int := do
  let lineStart ← d.lineStart (d.lineAt offset)
  let before := if offset ≤ d.length then d.readRange lineStart offset else []
  return offset - (before.reverse.takeWhile isIndentation).length

/-- Breaks the line at an offset, drops the blanks before the break, and indents the new line.
Answers the offset just after the indentation of the new line. -/
def newlineAndIndent (d : Document) (offset : Int) (table : IndentTable) :
    Document × Except DocumentError Int :=
  match d.breakOffset offset with
  | .error e => (d, .error e)
  | .ok breakAt =>
    match d.replaceRange breakAt offset [lineFeed] with
    | .error e => (d, .error e)
    | .ok d =>
      let newLine := d.lineAt breakAt + 1
      match d.lineStart newLine with
      | .error e => (d, .error e)
      | .ok start =>
        match d.indentLine start table with
        | (d, .error e) => (d, .error e)
        | (d, .ok column) => (d, (d.lineStart newLine).map (· + column))

end Document

end SexpEditing
