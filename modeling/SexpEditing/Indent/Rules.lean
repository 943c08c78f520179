import SexpEditing.Indent.Settings
import SexpEditing.Sexp.Context

/-!
# Indentation rules

The column of a line follows from the lists that enclose its first unit. The rules are tried in
order; the first one that applies decides.

## Main definitions

* `IndentLine`, `IndentInput`: the line to be indented, and all that a rule may look at
* `IndentRule`, `IndentRule.all`: one rule, and the rules in the order in which they are tried
* `IndentRule.select`: the first rule that applies and its column, never below zero
* `IndentInput.column`: the column of a line
-/

namespace SexpEditing

/-- The line to be indented. -/
structure IndentLine where
  line : Int
  /-- The first significant token on the line, if it has one. -/
  firstToken : Option Lexeme
deriving DecidableEq, Repr

/-- All that a rule may look at. -/
structure IndentInput where
  current : Option Context
  parent : Option Context
  line : IndentLine
  table : IndentTable
deriving DecidableEq, Repr

/-- The head of a context, if it is one of some forms. -/
def Context.headIn (context : Option Context) (forms : List Text) : Option (Context × Text) := do
  let c ← context
  let head ← c.head
  if forms.contains head then some (c, head) else none

/-- A rule: a name, and the column that it gives where it applies. -/
structure IndentRule where
  name : String
  apply : IndentInput → Option Int

namespace IndentRule

/-- Arguments of some forms stand at a set offset from the head. -/
def align : IndentRule where
  name := "align"
  apply input := do
    let c ← input.current
    let offset ← input.table.alignForms.find? (← c.head)
    return c.headColumn + offset

/-- Bindings stand under the first binding, past the head and the two units after it. -/
def bindingList : IndentRule where
  name := "binding list"
  apply input := do
    let (c, head) ← Context.headIn input.parent input.table.bindingForms
    if c.argIndex = 1 then some (c.headColumn + head.length + 2) else none

/-- The body of a block form stands past the head and the two units after it. -/
def block : IndentRule where
  name := "block"
  apply input := do
    let (c, head) ← Context.headIn input.current input.table.blockForms
    return c.headColumn + head.length + 2

/-- Parameters stand at the head of the definition; keyword parameters are set in further. -/
def parameterList : IndentRule where
  name := "parameter list"
  apply input := do
    let (c, _) ← Context.headIn input.parent input.table.definitionForms
    let keyword := input.line.firstToken.any fun t =>
      t.kind == .atom && input.table.keywordParamPrefix.isPrefixOf t.text
    if c.argIndex = 2 then
      some (c.column + if keyword then input.table.keywordParamOffset else 1)
    else
      none

/-- A documentation string stands at the left margin. -/
def docstring : IndentRule where
  name := "docstring"
  apply input := do
    let (c, _) ← Context.headIn input.current input.table.definitionForms
    if c.argIndex = 3 ∧ input.line.firstToken.any (fun t => t.kind == .string) then some 0
    else none

/-- The slots of a class stand at the head of the class. -/
def classSlots : IndentRule where
  name := "class slots"
  apply input := do
    let (c, _) ← Context.headIn input.parent input.table.classForms
    if c.argIndex = 3 then some (c.column + 1) else none

/-- The first arguments of a wrapping form stand past the head and the two units after it. -/
def wrapping : IndentRule where
  name := "wrapping"
  apply input := do
    let (c, head) ← Context.headIn input.current input.table.wrappingForms
    if c.argIndex < 3 then some (c.headColumn + head.length + 2) else none

/-- A line on which its own lists were opened stands at the left margin. -/
def sameLine : IndentRule where
  name := "same line"
  apply input := do
    let c ← input.current
    if c.line = input.line.line ∧ input.parent.all (fun p => p.line == input.line.line) then some 0
    else none

/-- Other lines stand two columns inside the list; lines outside all lists at the left margin. -/
def fallback : IndentRule where
  name := "default"
  apply input := some (input.current.elim 0 fun c => c.column + 2)

/-- The rules in the order in which they are tried. -/
def all : List IndentRule :=
  [align, bindingList, block, parameterList, docstring, classSlots, wrapping, sameLine, fallback]

/-- The first of some rules that applies, and its column, never below zero. Where none applies,
the column is zero and the rule is called `none`. -/
def select (rules : List IndentRule) (input : IndentInput) : String × Int :=
  match rules.findSome? fun rule => (rule.apply input).map fun column => (rule.name, column) with
  | some (name, column) => (name, max 0 column)
  | none => ("none", 0)

end IndentRule

/-- The column to which a line is indented. -/
def IndentInput.column (input : IndentInput) : Int := (IndentRule.select IndentRule.all input).2

end SexpEditing
