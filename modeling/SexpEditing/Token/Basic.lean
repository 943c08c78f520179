import SexpEditing.Range
import SexpEditing.Text.Basic

/-!
# Tokens

A token is a lexeme (a kind and a text) at a place in a larger text.

## Main definitions

* `TokenKind`, with `TokenKind.isTrivia` for the kinds that carry no structure
* `Lexeme`, `Token`: without and with a place
* `Lexeme.layOut`: gives lexemes their places, end to end
* `Token.enforce`: a token if it has the expected kind
-/

namespace SexpEditing

/-- The kinds of tokens. -/
inductive TokenKind
  /-- A run of white space. -/
  | space
  /-- A comment to the end of the line, or between nested markers. -/
  | comment
  /-- An opening delimiter. -/
  | opener
  /-- A closing delimiter. -/
  | closer
  /-- A quotation mark before an expression. -/
  | mark
  /-- A symbol or a number. -/
  | atom
  /-- A string literal. -/
  | string
deriving DecidableEq, Repr

namespace TokenKind

/-- The name under which a kind is reported. -/
def name : TokenKind → String
  | .space => "Space"
  | .comment => "Comment"
  | .opener => "Open"
  | .closer => "Close"
  | .mark => "Prefix"
  | .atom => "Atom"
  | .string => "String"

/-- Every kind. -/
def all : List TokenKind := [.space, .comment, .opener, .closer, .mark, .atom, .string]

/-- The kind with a name. -/
def ofName? (name : String) : Option TokenKind := all.find? fun kind => kind.name == name

/-- White space and comments carry no structure. -/
def isTrivia : TokenKind → Bool
  | .space | .comment => true
  | _ => false

end TokenKind

/-- A piece of text with its kind. -/
structure Lexeme where
  kind : TokenKind
  text : Text
deriving DecidableEq, Repr

/-- A lexeme at its place in a larger text. -/
structure Token extends Lexeme where
  range : Range
deriving DecidableEq, Repr

/-- Why a token was not accepted. -/
inductive TokenError
  /-- It has another kind than the expected one. -/
  | unexpectedKind (expected actual : TokenKind)
deriving DecidableEq, Repr

/-- The wording of an error. -/
def TokenError.message : TokenError → Text
  | .unexpectedKind expected actual =>
    Text.ofString ("expected token kind " ++ expected.name ++ " but got " ++ actual.name)

namespace Token

/-- The offset of the first unit. -/
def start (t : Token) : Int := t.range.start

/-- The offset after the last unit. -/
def stop (t : Token) : Int := t.range.stop

/-- Whether a token carries no structure. -/
def isTrivia (t : Token) : Bool := t.kind.isTrivia

/-- Whether a token has a kind. -/
def is (t : Token) (kind : TokenKind) : Bool := t.kind == kind

/-- The token itself if it has the expected kind. -/
def enforce (t : Token) (kind : TokenKind) : Except TokenError Token :=
  if t.is kind then .ok t else .error (.unexpectedKind kind t.kind)

@[simp] theorem is_iff (t : Token) (kind : TokenKind) : t.is kind = true ↔ t.kind = kind := by
  simp [is]

end Token

namespace Lexeme

/-- The tokens of lexemes that stand end to end from an offset. -/
def layOut (start : Int) : List Lexeme → List Token
  | [] => []
  | l :: rest =>
    ⟨l, ⟨start, start + l.text.length⟩⟩ :: layOut (start + l.text.length) rest

@[simp] theorem layOut_nil (start : Int) : layOut start [] = [] := rfl

@[simp] theorem layOut_cons (start : Int) (l : Lexeme) (rest : List Lexeme) :
    layOut start (l :: rest) =
      ⟨l, ⟨start, start + l.text.length⟩⟩ :: layOut (start + l.text.length) rest := rfl

/-- Laying out keeps the lexemes. -/
@[simp] theorem map_toLexeme_layOut (start : Int) (ls : List Lexeme) :
    (layOut start ls).map Token.toLexeme = ls := by
  induction ls generalizing start with
  | nil => rfl
  | cons l rest ih => simp [ih]

end Lexeme

end SexpEditing
