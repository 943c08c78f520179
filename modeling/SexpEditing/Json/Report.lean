import SexpEditing.Json.Basic

/-!
# Reports on JSON texts

What can be wrong with a text, and what a reader of texts answers. A reader may answer with a value
although something is wrong, and with none although nothing is.

## Main definitions

* `JsonFault`, `JsonReport`: what can be wrong with a text, and where
* `JsonParser`: the readers of texts
-/

namespace SexpEditing

/-- What can be wrong with a JSON text. -/
inductive JsonFault
  | invalidSymbol
  | propertyNameExpected
  | valueExpected
  | colonExpected
  | commaExpected
  | closeBraceExpected
  | closeBracketExpected
  | endOfFileExpected
  | unexpectedEndOfComment
  | unexpectedEndOfString
  | unexpectedEndOfNumber
  | invalidUnicode
  | invalidEscapeCharacter
  | invalidCharacter
deriving DecidableEq, Repr

/-- The name under which a fault is reported. -/
def JsonFault.name : JsonFault → String
  | .invalidSymbol => "InvalidSymbol"
  | .propertyNameExpected => "PropertyNameExpected"
  | .valueExpected => "ValueExpected"
  | .colonExpected => "ColonExpected"
  | .commaExpected => "CommaExpected"
  | .closeBraceExpected => "CloseBraceExpected"
  | .closeBracketExpected => "CloseBracketExpected"
  | .endOfFileExpected => "EndOfFileExpected"
  | .unexpectedEndOfComment => "UnexpectedEndOfComment"
  | .unexpectedEndOfString => "UnexpectedEndOfString"
  | .unexpectedEndOfNumber => "UnexpectedEndOfNumber"
  | .invalidUnicode => "InvalidUnicode"
  | .invalidEscapeCharacter => "InvalidEscapeCharacter"
  | .invalidCharacter => "InvalidCharacter"

/-- A fault and the offset at which it is reported. -/
structure JsonReport where
  fault : JsonFault
  offset : Nat
deriving DecidableEq, Repr

/-- A reader of texts: answers the value of a text, if it finds one, and all reports on the text. -/
abbrev JsonParser := Text → Option Json × List JsonReport

end SexpEditing
