import SexpEditing.Token.Lexer

/-!
# Expression trees

Trees for whole files, such as declaration records. A tree keeps its tokens, so that its place and
its text are known.

## Main definitions

* `Expr`: lists, quoted expressions, atoms, strings, and tokens that begin no expression
* `Expr.range`: the place of an expression
* `Expr.render`: its text, with one blank between the items of a list
* `Expr.tokens`: its tokens from left to right
* `Expr.stringValue`: the contents of a string literal
-/

namespace SexpEditing

open CodeUnit

/-- The ways to quote an expression. -/
inductive QuoteStyle
  | quotation
  | quasiquotation
  | unquotation
  | splicedUnquotation
deriving DecidableEq, Repr

namespace QuoteStyle

/-- The text that marks an expression as quoted so. -/
def mark : QuoteStyle → Text
  | .quotation => [apostrophe]
  | .quasiquotation => [backquote]
  | .unquotation => [comma]
  | .splicedUnquotation => [comma, atSign]

/-- Every style. -/
def all : List QuoteStyle := [.quotation, .quasiquotation, .unquotation, .splicedUnquotation]

/-- The style that a text marks. -/
def ofMark? (t : Text) : Option QuoteStyle := all.find? fun style => style.mark == t

@[simp] theorem ofMark?_mark (style : QuoteStyle) : ofMark? style.mark = some style := by
  cases style <;> rfl

end QuoteStyle

/-- An expression. -/
inductive Expr
  /-- A list; one that is open at the end of the text has no closing delimiter. -/
  | list (opener : Token) (items : List Expr) (closer : Option Token)
  /-- A quoted expression. -/
  | quoted (style : QuoteStyle) (mark : Token) (inner : Expr)
  | atom (token : Token)
  | string (token : Token)
  /-- A token that begins no expression where it stands, such as a stray closing delimiter. -/
  | stray (token : Token)

namespace Expr

mutual

/-- The least range that holds all parts of an expression. -/
def range : Expr → Range
  | .list opener items closer =>
    let inner := joinItems opener.range items
    match closer with
    | some t => inner.join t.range
    | none => inner
  | .quoted _ mark inner => mark.range.join inner.range
  | .atom t | .string t | .stray t => t.range

/-- The least range that holds a range and some expressions. -/
def joinItems (r : Range) : List Expr → Range
  | [] => r
  | e :: rest => joinItems (r.join e.range) rest

end

mutual

/-- The text of an expression, with one blank between the items of a list. -/
def render : Expr → Text
  | .list opener items closer =>
    opener.text ++ (renderItems items ++ (closer.map fun t => t.text).getD [])
  | .quoted _ mark inner => mark.text ++ inner.render
  | .atom t | .string t | .stray t => t.text

/-- The texts of expressions, with one blank between them. -/
def renderItems : List Expr → Text
  | [] => []
  | [e] => e.render
  | e :: rest => e.render ++ space :: renderItems rest

end

mutual

/-- The tokens of an expression, from left to right. -/
def tokens : Expr → List Token
  | .list opener items closer => opener :: (tokensOf items ++ closer.toList)
  | .quoted _ mark inner => mark :: inner.tokens
  | .atom t | .string t | .stray t => [t]

/-- The tokens of expressions, from left to right. -/
def tokensOf : List Expr → List Token
  | [] => []
  | e :: rest => e.tokens ++ tokensOf rest

end

end Expr

/-- The unit that a backslash and a letter stand for. -/
def unescape : CodeUnit → CodeUnit
  | letterN => lineFeed
  | letterT => tab
  | letterR => carriageReturn
  | c => c

/-- Resolves the escapes of a string literal. A backslash at the very end stands for itself. -/
def unescapeAll : Text → Text
  | [] => []
  | backslash :: c :: rest => unescape c :: unescapeAll rest
  | c :: rest => c :: unescapeAll rest

/-- The contents of a string literal: its text without the first and the last unit, and with
escapes resolved. -/
def stringValue (literal : Text) : Text := unescapeAll literal.tail.dropLast

end SexpEditing
