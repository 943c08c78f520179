import SexpEditing.Document.Basic
import SexpEditing.Token.Index

/-!
# Moving over s-expressions

A structural unit is an atom, a string or a balanced list, with the quotation marks before it. A
navigator moves over the units of one document, at every offset and on unbalanced text too: where
there is no unit to move over, a motion answers nothing. Walks over siblings give up after a number
of steps; matching delimiters has no such limit.

## Main definitions

* `Sexp`: a structural unit, by its range and its delimiters
* `Navigator.backwardSexp`, `Navigator.forwardSexp`: the unit before and after an offset
* `Navigator.upList`: the opening delimiter of an enclosing list
* `Navigator.firstChild`: the first token inside a list
-/

namespace SexpEditing

/-- A structural unit: an atom or a string, or a balanced list, with any quotation marks before
it. -/
structure Sexp where
  range : Range
  /-- The delimiters, if the unit is a list. -/
  opener : Option Token
  closer : Option Token
deriving DecidableEq, Repr

/-- A document with the index of its tokens. It is valid until the document changes. -/
structure Navigator where
  document : Document
  index : TokenIndex
  /-- How many siblings a walk visits before it gives up. -/
  maxSteps : Nat
deriving Repr

namespace Navigator

/-- The limit on walks over siblings, unless another is given. -/
def defaultMaxSteps : Nat := 10000

/-- A navigator for a document as it is now. -/
def ofDocument (d : Document) (maxSteps : Nat) : Navigator :=
  ⟨d, TokenIndex.ofText d.text, maxSteps⟩

/-- The significant tokens. -/
def tokens (nav : Navigator) : Array Token := nav.index.significant

/-- The text of a unit. -/
def textOf (nav : Navigator) (sexp : Sexp) : Text :=
  nav.document.readRange sexp.range.start sexp.range.stop

/-- The range from one significant token to another. -/
def spanOf? (nav : Navigator) (first last : Nat) : Option Range := do
  let first ← nav.tokens[first]?
  let last ← nav.tokens[last]?
  return ⟨first.start, last.stop⟩

/-- The index of the first of the quotation marks that stand directly before a token. -/
def firstMark (tokens : Array Token) : Nat → Nat
  | 0 => 0
  | i + 1 =>
    if tokens[i]?.any fun t => t.is .mark then firstMark tokens i else i + 1

/-- The index of the first token at or after an index that is no quotation mark, or of the last
token if there are only marks. -/
def skipMarks (tokens : Array Token) (i : Nat) : Nat :=
  if h : i + 1 < tokens.size then
    if tokens[i].is .mark then skipMarks tokens (i + 1) else i
  else
    i
termination_by tokens.size - i

/-- The unit that ends at or before an offset, or contains it. An opening delimiter, an unmatched
closing delimiter and the start of the text yield nothing. -/
def backwardSexp (nav : Navigator) (offset : Int) : Option Sexp := do
  let last ← nav.index.significantBefore offset
  let token ← nav.tokens[last]?
  match token.kind with
  | .opener => none
  | .closer =>
    let first ← nav.index.partnerOf last
    let opener ← nav.tokens[first]?
    let range ← nav.spanOf? (firstMark nav.tokens first) last
    return ⟨range, some opener, some token⟩
  | _ =>
    let range ← nav.spanOf? (firstMark nav.tokens last) last
    return ⟨range, none, none⟩

/-- The unit that starts at or after an offset, or contains it. A closing delimiter, an
unterminated list and the end of the text yield nothing. Quotation marks before a closing delimiter
are a unit by themselves. -/
def forwardSexp (nav : Navigator) (offset : Int) : Option Sexp := do
  let first ← nav.index.significantAfter offset
  let i := skipMarks nav.tokens first
  let token ← nav.tokens[i]?
  match token.kind with
  | .closer =>
    if first < i then
      let range ← nav.spanOf? first (i - 1)
      return ⟨range, none, none⟩
    else
      none
  | .opener =>
    let last ← nav.index.partnerOf i
    let closer ← nav.tokens[last]?
    let range ← nav.spanOf? first last
    return ⟨range, some token, some closer⟩
  | _ =>
    let range ← nav.spanOf? first i
    return ⟨range, none, none⟩

/-- Walks backward over at most `steps` siblings to the opening delimiter before the first. -/
def enclosingOpener (nav : Navigator) : (steps : Nat) → (offset : Int) → Option Token
  | 0, _ => none
  | steps + 1, offset =>
    match nav.backwardSexp offset with
    | some sexp => enclosingOpener nav steps sexp.range.start
    | none => do
      let i ← nav.index.significantBefore offset
      let token ← nav.tokens[i]?
      if token.is .opener then some token else none

/-- The opening delimiter of the list that encloses an offset, `levels` lists out. This is where
a backward motion would land if that many closing delimiters were inserted at the offset. -/
def upList (nav : Navigator) (offset : Int) : (levels : Nat) → Option Token
  | 0 => none
  | 1 => nav.enclosingOpener nav.maxSteps offset
  | levels + 2 => do
    let opener ← nav.enclosingOpener nav.maxSteps offset
    upList nav opener.start (levels + 1)

/-- The first significant token inside a list, if the list has any contents yet. -/
def firstChild (nav : Navigator) (opener : Token) : Option Token := do
  let i ← nav.index.significantAfter opener.stop
  let token ← nav.tokens[i]?
  if token.is .closer then none else some token

end Navigator

end SexpEditing
