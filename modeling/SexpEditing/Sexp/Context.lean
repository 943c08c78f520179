import SexpEditing.Sexp.Motion

/-!
# Where a cursor stands

The context of a cursor is its place in one of the lists that enclose it: the innermost list is its
current context, the list around that its parent context.

## Main definitions

* `Context`: a place in a list
* `Navigator.contexts`: the current and the parent context of an offset
-/

namespace SexpEditing

/-- A place in a list. -/
structure Context where
  /-- The first element of the list, if it is an atom. -/
  head : Option Text
  /-- The column of the opening delimiter. -/
  column : Int
  /-- The number of complete elements, the head included, that end before the cursor. -/
  argIndex : Int
  /-- The line of the opening delimiter. -/
  line : Int
  /-- The offset of the opening delimiter. -/
  start : Int
deriving DecidableEq, Repr

/-- The column at which the head of a list starts. -/
def Context.headColumn (c : Context) : Int := c.column + 1

/-- The contexts of a cursor. Near the top level one or both are missing. -/
structure ContextPair where
  current : Option Context
  parent : Option Context
deriving DecidableEq, Repr

namespace Navigator

/-- The number of units from an offset on, at most `steps`, that end before a cursor. -/
def countSiblings (nav : Navigator) (cursor : Int) : (steps : Nat) → (offset : Int) → Nat
  | 0, _ => 0
  | steps + 1, offset =>
    match nav.forwardSexp offset with
    | some sibling =>
      if sibling.range.stop < cursor then
        countSiblings nav cursor steps sibling.range.stop + 1
      else
        0
    | none => 0

/-- The place of a cursor in the list with an opening delimiter. -/
def contextIn (nav : Navigator) (opener : Token) (cursor : Int) : Context where
  head := (nav.firstChild opener).bind fun t => if t.is .atom then some t.text else none
  column := nav.document.columnAt opener.start
  argIndex := nav.countSiblings cursor nav.maxSteps opener.stop
  line := nav.document.lineAt opener.start
  start := opener.start

/-- The innermost list that encloses an offset, and the list around that. -/
def contexts (nav : Navigator) (offset : Int) : ContextPair :=
  match nav.upList offset 1 with
  | none => ⟨none, none⟩
  | some opener =>
    ⟨some (nav.contextIn opener offset),
      (nav.upList opener.start 1).map fun outer => nav.contextIn outer offset⟩

end Navigator

end SexpEditing
