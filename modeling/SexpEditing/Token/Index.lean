import SexpEditing.Token.Delimiters
import SexpEditing.Token.Lexer

/-!
# Finding tokens by offset

An index holds the tokens of one text, those that are significant, and the matches of the
delimiters among these. It is a snapshot of a text that does not change.

## Main definitions

* `TokenIndex.ofText`: the index of a text
* `Token.indexAfter`, `Token.indexBefore`: the first token that ends after an offset, and the last
  one that starts before it, among tokens in increasing order
* `TokenIndex.scan`: the token next to an offset
* `TokenIndex.partnerOf`: the delimiter that matches another
-/

namespace SexpEditing

/-- The two ways to go from an offset. -/
inductive Direction
  | forward
  | backward
deriving DecidableEq, Repr

namespace Token

/-- The index before another one. -/
def previousIndex : Nat → Option Nat
  | 0 => none
  | i + 1 => some i

/-- The index of the first token that ends after an offset. -/
def indexAfter (tokens : Array Token) (offset : Int) : Option Nat :=
  match searchRanges tokens Token.range offset with
  | .found i => some i
  | .gap i => if i < tokens.size then some i else none

/-- The index of the last token that starts before an offset. -/
def indexBefore (tokens : Array Token) (offset : Int) : Option Nat :=
  match searchRanges tokens Token.range offset with
  | .found i =>
    if tokens[i]?.any fun t => t.start < offset then some i else previousIndex i
  | .gap i => previousIndex i

end Token

/-- The tokens of a text, searchable by offset. -/
structure TokenIndex where
  /-- All tokens, in order. -/
  tokens : Array Token
  /-- The tokens that carry structure, in order. -/
  significant : Array Token
  /-- For each significant token, the index of the delimiter that it matches. -/
  partners : Array (Option Nat)
deriving Repr

namespace TokenIndex

/-- The index of a list of tokens in increasing order. -/
def ofTokens (tokens : List Token) : TokenIndex :=
  let significant := tokens.filter fun t => !t.isTrivia
  ⟨tokens.toArray, significant.toArray, (Matching.ofTokens significant).partners⟩

/-- The index of the tokens of a text. -/
def ofText (t : Text) : TokenIndex := ofTokens (tokenize t)

/-- The index of the delimiter that matches the significant token at an index. There is none for
an unmatched delimiter, another token, or an index outside. -/
def partnerOf (index : TokenIndex) (i : Int) : Option Nat :=
  if 0 ≤ i then index.partners[i.toNat]?.join else none

/-- The index of the first significant token that ends after an offset. -/
def significantAfter (index : TokenIndex) (offset : Int) : Option Nat :=
  Token.indexAfter index.significant offset

/-- The index of the last significant token that starts before an offset. -/
def significantBefore (index : TokenIndex) (offset : Int) : Option Nat :=
  Token.indexBefore index.significant offset

/-- Going forward, the first token that ends after an offset; going backward, the last one that
starts before it. Either may contain the offset. White space and comments count only if `trivia`
is set. -/
def scan (index : TokenIndex) (offset : Int) (direction : Direction) (trivia : Bool) :
    Option Token :=
  let tokens := if trivia then index.tokens else index.significant
  let i := match direction with
    | .forward => Token.indexAfter tokens offset
    | .backward => Token.indexBefore tokens offset
  i.bind fun i => tokens[i]?

end TokenIndex

/-- The token of a text next to an offset, white space and comments included. -/
def scan (t : Text) (offset : Int) (direction : Direction) : Option Token :=
  (TokenIndex.ofText t).scan offset direction true

end SexpEditing
