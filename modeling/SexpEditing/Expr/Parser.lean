import SexpEditing.Expr.Basic

/-!
# Parsing expressions

Top-level expressions are read one token at a time. The lists that are still open are kept on a
stack, so nesting is limited only by memory; a list that is open at the end of the input becomes an
expression without a closing delimiter.

## Main definitions

* `PartialList`: a list, or the top level, with what was read of it so far
* `Parser.step`, `Parser.finish`: one token, and the end of the input
* `Expr.parseMany`: the expressions of some tokens
* `Expr.ofText`: the expressions of a text
-/

namespace SexpEditing

/-- Why tokens cannot be read as expressions. -/
inductive ExprError
  /-- A token marks an expression as quoted, but its text is no mark. -/
  | unmatchableMark (text : Text)
deriving DecidableEq, Repr

/-- The wording of an error. -/
def ExprError.message : ExprError → Text
  | .unmatchableMark text =>
    Text.ofString "unmatchable prefix \"" ++ text ++ Text.ofString "\""

/-- What was read at one level: complete items, and marks that wait for an expression. Both lists
hold the newest member first. -/
structure PartialList where
  items : List Expr
  marks : List Token

/-- What was read so far: the top level, and the open lists with their delimiters, innermost
first. -/
structure Parser where
  top : PartialList
  lists : List (Token × PartialList)

namespace PartialList

/-- Nothing was read. -/
def empty : PartialList := ⟨[], []⟩

/-- An expression in the marks before it, the newest one innermost. -/
def wrap : (marks : List Token) → Expr → Except ExprError Expr
  | [], e => .ok e
  | mark :: outer, e =>
    match QuoteStyle.ofMark? mark.text with
    | some style => wrap outer (.quoted style mark e)
    | none => .error (.unmatchableMark mark.text)

/-- Adds an expression, which takes the waiting marks. -/
def add (l : PartialList) (e : Expr) : Except ExprError PartialList := do
  return ⟨(← wrap l.marks e) :: l.items, []⟩

/-- Adds a mark that waits for an expression. -/
def addMark (l : PartialList) (mark : Token) : PartialList := { l with marks := mark :: l.marks }

/-- Gives up waiting: the marks become items that begin no expression. -/
def dropMarks (l : PartialList) : PartialList := ⟨l.marks.map Expr.stray ++ l.items, []⟩

/-- The items in order, the waiting marks last. -/
def contents (l : PartialList) : List Expr := l.dropMarks.items.reverse

end PartialList

namespace Parser

/-- Nothing was read. -/
def empty : Parser := ⟨.empty, []⟩

/-- Adds an expression at the innermost level. -/
def add (p : Parser) (e : Expr) : Except ExprError Parser :=
  match p.lists with
  | [] => do return { p with top := ← p.top.add e }
  | (opener, l) :: outer => do return { p with lists := (opener, ← l.add e) :: outer }

/-- Adds a mark at the innermost level. -/
def addMark (p : Parser) (mark : Token) : Parser :=
  match p.lists with
  | [] => { p with top := p.top.addMark mark }
  | (opener, l) :: outer => { p with lists := (opener, l.addMark mark) :: outer }

/-- Reads one token. White space and comments are skipped. -/
def step (p : Parser) (t : Token) : Except ExprError Parser :=
  match t.kind with
  | .space | .comment => .ok p
  | .opener => .ok { p with lists := (t, .empty) :: p.lists }
  | .closer =>
    match p.lists with
    | (opener, l) :: outer =>
      { p with lists := outer }.add (.list opener l.contents (some t))
    | [] =>
      let top := p.top.dropMarks
      .ok { p with top := { top with items := .stray t :: top.items } }
  | .mark => .ok (p.addMark t)
  | .atom => p.add (.atom t)
  | .string => p.add (.string t)

/-- Reads some tokens. -/
def run (p : Parser) : List Token → Except ExprError Parser
  | [] => .ok p
  | t :: rest => do run (← p.step t) rest

/-- Ends the open lists, the innermost first, each as an item of the one around it. -/
def closeAll (top : PartialList) : List (Token × PartialList) → Except ExprError PartialList
  | [] => .ok top
  | [(opener, l)] => top.add (.list opener l.contents none)
  | (opener, l) :: (outerOpener, outer) :: rest => do
    let outer ← outer.add (.list opener l.contents none)
    closeAll top ((outerOpener, outer) :: rest)
termination_by lists => lists.length

/-- The top-level expressions at the end of the input. -/
def finish (p : Parser) : Except ExprError (List Expr) := do
  return (← closeAll p.top p.lists).contents

end Parser

namespace Expr

/-- The top-level expressions of some tokens. -/
def parseMany (tokens : List Token) : Except ExprError (List Expr) := do
  (← Parser.empty.run tokens).finish

/-- The top-level expressions of a text. -/
def ofText (t : Text) : Except ExprError (List Expr) := parseMany (tokenize t)

end Expr

end SexpEditing
