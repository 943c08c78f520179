import SexpEditing.Sexp.Motion

/-!
# Lines of closing delimiters

A line that holds only closing delimiters stands under the opening delimiter that its last closing
delimiter matches. Such lines come in stacks, so the lines directly above are re-aligned with it.

## Main definitions

* `isCloserLine`, `isBareCloserLine`: lines of closing delimiters, with and without a comment
* `Navigator.closerColumn`: the column of the opening delimiter that such a line matches
* `Navigator.dedentPass`: the edits that align a closer line and those above it
-/

namespace SexpEditing

open CodeUnit

/-- A column to which a line is to be indented. -/
structure IndentEdit where
  line : Int
  column : Int
deriving DecidableEq, Repr

/-- The text after the closing delimiters that begin a line, which blanks may precede, and the
number of units up to there. There is none if no closing delimiter comes first. -/
def splitClosers (line : Text) : Option (Nat × Text) :=
  let blanks := line.takeWhile isSpace
  let rest := line.dropWhile isSpace
  let closers := rest.takeWhile (· == rightParen)
  if closers.isEmpty then none
  else some (blanks.length + closers.length, rest.dropWhile (· == rightParen))

/-- A line that holds closing delimiters and nothing else. -/
def isBareCloserLine (line : Text) : Bool :=
  (splitClosers line).any fun (_, rest) => rest.all isSpace

/-- A line that holds closing delimiters and nothing else but perhaps a comment. -/
def isCloserLine (line : Text) : Bool :=
  (splitClosers line).any fun (_, rest) =>
    match rest.dropWhile isSpace with
    | [] => true
    | c :: comment => c == semicolon && !comment.any isLineTerminator

namespace Navigator

/-- The column of the opening delimiter that the last of the closing delimiters beginning a line
matches. -/
def closerColumn (nav : Navigator) (line : Int) : Except DocumentError (Option Int) := do
  match splitClosers (← nav.document.lineText line) with
  | none => return none
  | some (width, _) =>
    let stop := (← nav.document.lineStart line) + width
    return (nav.backwardSexp stop).bind fun sexp =>
      sexp.opener.map fun opener => nav.document.columnAt opener.start

/-- The edits for at most `steps` bare closer lines, going upward from a line. -/
def dedentAbove (nav : Navigator) : (steps : Nat) → (line : Int) →
    Except DocumentError (List IndentEdit)
  | 0, _ => return []
  | steps + 1, line => do
    if line < 0 then return []
    if !isBareCloserLine (← nav.document.lineText line) then return []
    match ← nav.closerColumn line with
    | none => return []
    | some column => return ⟨line, column⟩ :: (← dedentAbove nav steps (line - 1))

/-- The edits that align a closer line, and at most `maxSteps` bare closer lines directly above
it. There are none if the line is no closer line or its last delimiter is unmatched. -/
def dedentPass (nav : Navigator) (line : Int) (maxSteps : Nat) :
    Except DocumentError (List IndentEdit) := do
  if !isCloserLine (← nav.document.lineText line) then return []
  match ← nav.closerColumn line with
  | none => return []
  | some column => return ⟨line, column⟩ :: (← nav.dedentAbove maxSteps (line - 1))

end Navigator

end SexpEditing
