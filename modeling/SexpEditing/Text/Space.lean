import SexpEditing.Text.Basic

/-!
# White space

The units that separate tokens, those that end a line, and those that may stand before the first
token of a line as its indentation.

## Main definitions

* `CodeUnit.isSpace`: the white space of the language
* `CodeUnit.isLineTerminator`: the units that a comment on one line may not hold
* `CodeUnit.isIndentation`: spaces and tabs
* `Text.trim`: a text without the white space at its ends
-/

namespace SexpEditing.CodeUnit

/-- White space: the blanks and line ends of the basic Latin block, the no-break space, the space
separators, the line and paragraph separators and the zero width no-break space. -/
def isSpace (c : CodeUnit) : Bool :=
  (0x09 ≤ c && c ≤ 0x0D) || c == 0x20 || c == 0xA0 || c == 0x1680 || (0x2000 ≤ c && c ≤ 0x200A) ||
    c == 0x2028 || c == 0x2029 || c == 0x202F || c == 0x205F || c == 0x3000 || c == 0xFEFF

/-- The units that end a line: line feed, carriage return, line and paragraph separator. -/
def isLineTerminator (c : CodeUnit) : Bool :=
  c == 0x0A || c == 0x0D || c == 0x2028 || c == 0x2029

/-- The units that indent a line. -/
def isIndentation (c : CodeUnit) : Bool := c == space || c == tab

theorem isSpace_of_isIndentation {c : CodeUnit} (h : c.isIndentation) : c.isSpace := by
  simp only [isIndentation, Bool.or_eq_true, beq_iff_eq] at h
  rcases h with rfl | rfl <;> rfl

end SexpEditing.CodeUnit

namespace SexpEditing.Text

/-- A text without the white space at its ends. -/
def trim (t : Text) : Text :=
  ((t.dropWhile CodeUnit.isSpace).reverse.dropWhile CodeUnit.isSpace).reverse

end SexpEditing.Text
