import SexpEditing.Json.Report
import SexpEditing.Number.Numeral

/-!
# Lexemes of JSON with comments

Blanks, line breaks and comments are skipped, and so are symbols that mean nothing. What was wrong
with a skipped piece is reported with the lexeme that follows it.

## Main definitions

* `JsonLexeme`: the lexemes that count
* `Json.nextPiece`: the first piece of a text, which counts or is skipped
* `Json.lex`: all lexemes of a text, with the faults up to each of them
-/

namespace SexpEditing

open CodeUnit Numeral

/-- The lexemes that count. -/
inductive JsonLexeme
  | openBrace
  | closeBrace
  | openBracket
  | closeBracket
  | colon
  | comma
  | string (value : Text)
  | number (value : Decimal)
  | keyword (value : Json)

/-- A piece of a text: a lexeme that counts, or one that is skipped, and what is wrong with it. -/
structure JsonPiece where
  lexeme : Option JsonLexeme
  fault : Option JsonFault

/-- A lexeme that counts, its offset, and the reports that are due when it is reached. -/
structure PlacedLexeme where
  lexeme : JsonLexeme
  offset : Nat
  reports : List JsonReport

/-- The lexemes of a text that count, and what is still to be reported at its end. -/
structure JsonLexemes where
  lexemes : List PlacedLexeme
  length : Nat
  finalReports : List JsonReport

namespace Json

/-- The units that a backslash and one more unit stand for. -/
def simpleEscape? (c : CodeUnit) : Option CodeUnit :=
  if c = quotationMark ∨ c = backslash ∨ c = slash then some c
  else if c = 0x62 then some 0x08
  else if c = 0x66 then some 0x0C
  else if c = letterN then some lineFeed
  else if c = letterR then some carriageReturn
  else if c = letterT then some tab
  else none

/-- The rest of a string after its opening quotation mark: its value, what is wrong with it, and
the text after it. The last of several faults counts. A line break ends the string. -/
def stringRest (fault : Option JsonFault) (t : Text) : Text × Option JsonFault × Text :=
  match t with
  | [] => ([], some .unexpectedEndOfString, [])
  | c :: rest =>
    if c = quotationMark then ([], fault, rest)
    else if c = backslash then
      match rest with
      | [] => ([], some .unexpectedEndOfString, [])
      | e :: rest =>
        match simpleEscape? e with
        | some u =>
          let (value, fault, after) := stringRest fault rest
          (u :: value, fault, after)
        | none =>
          if e = 0x75 then
            let digits := (rest.take 4).map CodeUnit.hexDigit? |>.takeWhile Option.isSome
            if digits.length = 4 then
              let (value, fault, after) := stringRest fault (rest.drop 4)
              (UInt16.ofNat (digitsValue 16 (digits.filterMap id)) :: value, fault, after)
            else
              stringRest (some .invalidUnicode) (rest.drop digits.length)
          else
            stringRest (some .invalidEscapeCharacter) rest
    else if c = lineFeed ∨ c = carriageReturn then
      ([], some .unexpectedEndOfString, c :: rest)
    else
      let (value, fault, after) :=
        stringRest (if c < 0x20 then some .invalidCharacter else fault) rest
      (c :: value, fault, after)
termination_by t.length

/-- The exponent of a number, if one follows: its value, what is wrong with it, and the text after
it. -/
def exponentFront (t : Text) : Int × Option JsonFault × Text :=
  match t with
  | e :: rest =>
    if e = 0x65 ∨ e = 0x45 then
      let (negative, rest) := signFront rest
      match digitsFront rest with
      | ([], rest) => (0, some .unexpectedEndOfNumber, rest)
      | (digits, rest) =>
        let n : Int := digitsValue 10 digits
        (if negative then -n else n, none, rest)
    else (0, none, e :: rest)
  | [] => (0, none, [])

/-- The number at the front of a text that begins with a digit. A leading zero is a number by
itself. -/
def numberFront (negative : Bool) (t : Text) : JsonPiece × Text :=
  let (whole, rest) := match t with
    | 0x30 :: rest => ([0], rest)
    | _ => digitsFront t
  let finish (fraction : List Nat) (rest : Text) : JsonPiece × Text :=
    let (exponent, fault, rest) := exponentFront rest
    (⟨some (.number ⟨negative, digitsValue 10 (whole ++ fraction), exponent - fraction.length⟩),
      fault⟩, rest)
  match rest with
  | fullStop :: afterPoint =>
    match digitsFront afterPoint with
    | ([], rest) =>
      (⟨some (.number ⟨negative, digitsValue 10 whole, 0⟩), some .unexpectedEndOfNumber⟩, rest)
    | (fraction, rest) => finish fraction rest
  | rest => finish [] rest

/-- The text after the end of a block comment, if it has one. -/
def afterBlockComment : Text → Option Text
  | [] => none
  | asterisk :: slash :: rest => some rest
  | _ :: rest => afterBlockComment rest

/-- The units between lexemes. -/
def isBlank (c : CodeUnit) : Bool :=
  c == space || c == tab || c == lineFeed || c == carriageReturn

/-- The units that make up words. -/
def isWordUnit (c : CodeUnit) : Bool :=
  !(isBlank c || c == leftBrace || c == rightBrace || c == leftBracket || c == rightBracket ||
    c == quotationMark || c == colon || c == comma || c == slash)

/-- The value that a word stands for. -/
def keyword? (word : Text) : Option Json :=
  if word = Text.ofString "true" then some (.bool true)
  else if word = Text.ofString "false" then some (.bool false)
  else if word = Text.ofString "null" then some .null
  else none

/-- A piece that is skipped, and a fault with it. -/
def skipped (fault : Option JsonFault) : JsonPiece := ⟨none, fault⟩

/-- The first piece of a text that begins with a unit, and the text after it. -/
def nextPiece (c : CodeUnit) (rest : Text) : JsonPiece × Text :=
  if isBlank c then (skipped none, rest.dropWhile isBlank)
  else if c = leftBrace then (⟨some .openBrace, none⟩, rest)
  else if c = rightBrace then (⟨some .closeBrace, none⟩, rest)
  else if c = leftBracket then (⟨some .openBracket, none⟩, rest)
  else if c = rightBracket then (⟨some .closeBracket, none⟩, rest)
  else if c = colon then (⟨some .colon, none⟩, rest)
  else if c = comma then (⟨some .comma, none⟩, rest)
  else if c = quotationMark then
    let (value, fault, after) := stringRest none rest
    (⟨some (.string value), fault⟩, after)
  else if c = slash then
    match rest with
    | slash :: comment =>
      (skipped none, comment.dropWhile fun d => d != lineFeed && d != carriageReturn)
    | asterisk :: comment =>
      match afterBlockComment comment with
      | some after => (skipped none, after)
      | none => (skipped (some .unexpectedEndOfComment), [])
    | _ => (skipped (some .invalidSymbol), rest)
  else if c = hyphen then
    if rest.head?.any isDigit then numberFront true rest
    else (skipped (some .invalidSymbol), rest)
  else if c.isDigit then numberFront false (c :: rest)
  else
    match keyword? (c :: rest.takeWhile isWordUnit) with
    | some value => (⟨some (.keyword value), none⟩, rest.dropWhile isWordUnit)
    | none => (skipped (some .invalidSymbol), rest.dropWhile isWordUnit)

/-- The lexemes of a text that starts at an offset, when some reports are due already. A piece is
never empty; a text of `fuel` units has at most so many pieces. -/
def lexFrom : (fuel : Nat) → (offset : Nat) → (due : List JsonReport) → Text → JsonLexemes
  | _, offset, due, [] => ⟨[], offset, due⟩
  | 0, offset, due, _ => ⟨[], offset, due⟩
  | fuel + 1, offset, due, c :: rest =>
    let (⟨lexeme, fault⟩, after) := nextPiece c rest
    let due := due ++ (fault.map fun fault => ⟨fault, offset⟩).toList
    let next := offset + ((c :: rest).length - after.length)
    match lexeme with
    | none => lexFrom fuel next due after
    | some lexeme =>
      let more := lexFrom fuel next [] after
      { more with lexemes := ⟨lexeme, offset, due⟩ :: more.lexemes }

/-- The lexemes of a text. -/
def lex (t : Text) : JsonLexemes := lexFrom t.length 0 [] t

end Json

end SexpEditing
