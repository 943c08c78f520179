import SexpEditing.Token.Lexer

/-!
# Statements for an evaluator

An evaluator reads one statement per line. Code is collapsed to one line before it is sent, and
text to be shown is quoted.

## Main definitions

* `Statement.quote`: a text as the inside of a string literal
* `Statement.collapse`: code on one line
* `Statement.print`, `Statement.echo`: statements that show a text, and that show code and evaluate
  it
-/

namespace SexpEditing

open CodeUnit

/-- Why code is no statement. -/
inductive StatementError
  /-- A string or a comment that begins at an offset has no end. -/
  | unterminated (offset : Int)
deriving DecidableEq, Repr

/-- The wording of an error. -/
def StatementError.message : StatementError → String
  | .unterminated offset => s!"unterminated string or comment at offset {offset}"

namespace Statement

/-- A unit as it stands in a string literal. -/
def quoteUnit : CodeUnit → Text
  | lineFeed => [backslash, letterN]
  | carriageReturn => [backslash, letterR]
  | tab => [backslash, letterT]
  | quotationMark => [backslash, quotationMark]
  | backslash => [backslash, backslash]
  | c => [c]

/-- A text as the inside of a string literal. -/
def quote (t : Text) : Text := t.flatMap quoteUnit

/-- A text in which each line feed, with a carriage return before it, is a backslash and an n. -/
def escapeBreaks : Text → Text
  | [] => []
  | carriageReturn :: lineFeed :: rest => backslash :: letterN :: escapeBreaks rest
  | lineFeed :: rest => backslash :: letterN :: escapeBreaks rest
  | c :: rest => c :: escapeBreaks rest

/-- The significant lexemes without line breaks, and one blank between two of them that something
separated. Before the first one nothing is put: `first` says that none was read so far, `gap` that
something was passed over since the last one. -/
def join (first gap : Bool) : List Lexeme → Text
  | [] => []
  | l :: rest =>
    if l.kind.isTrivia then join first true rest
    else (if gap && !first then [space] else []) ++ escapeBreaks l.text ++ join false false rest

/-- The number of units of some lexemes. -/
def width : List Lexeme → Nat
  | [] => 0
  | l :: rest => l.text.length + width rest

/-- Code on one line: comments are dropped, white space becomes one blank, and line breaks in
strings are escaped. -/
def collapse (code : Text) : Except StatementError Text :=
  let ls := lexemes code
  if width ls < code.length then .error (.unterminated (width ls)) else .ok (join true false ls)

/-- A statement that shows a text on a line of its own. -/
def print (t : Text) : Text :=
  Text.ofString "(printf \"%s\\n\" \"" ++ quote t ++ Text.ofString "\")"

/-- Statements that show code, and then evaluate it and show its value. -/
def echo (code : Text) : Except StatementError (List Text) := do
  let statement ← collapse code
  return [print statement, Text.ofString "(println " ++ statement ++ [rightParen]]

@[simp] theorem quote_nil : quote [] = [] := rfl

@[simp] theorem quote_cons (c : CodeUnit) (t : Text) : quote (c :: t) = quoteUnit c ++ quote t :=
  rfl

end Statement

end SexpEditing
