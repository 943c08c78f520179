import SexpEditing.Json.Scalar
import SexpEditing.Symbol.Ranking
import SexpEditing.Text.Lowercase

/-!
# Inherited prefixes

Prefixes of a category that are inherited are not checked. They are the items of a list, or the
characters of a string. An item that stands for nothing is no prefix; any other one has the text of
the scalar that it counts as for its start, if it counts as one, and its length for its rank.

## Main definitions

* `Json.standsForNothing`: `null`, `false`, zero and the empty string
* `Json.rankedPrefixes`: the prefixes in a value that was not checked
* `Json.inheritedPrefixes`: the prefixes of all categories that an object inherits
-/

namespace SexpEditing

namespace Json

/-- Whether a value stands for nothing. -/
def standsForNothing : Json → Bool
  | .null => true
  | .bool b => !b
  | .number n => n.units == 0
  | .string t => t.isEmpty
  | .array _ => false
  | .object .. => false

/-- The length of a value, if it has one. -/
def length? : Json → Option Decimal
  | .string t => some (.ofNat t.length)
  | .array items => some (.ofNat items.length)
  | .object members inherited root =>
    ((get? lengthKey (.object members inherited root)).bind scalar?).bind JsonScalar.number?
  | _ => none

/-- The prefix that a value is which was not checked. -/
def rankedPrefix? (v : Json) : Option RankedPrefix :=
  if v.standsForNothing then none else some ⟨v.scalar?.map JsonScalar.text, v.length?⟩

/-- The index that a key is, if it is one. -/
def index? (key : Text) : Option Nat :=
  (Numeral.whole? 10 key).filter fun (i : Nat) => Text.ofInt i == key

/-- The indexes among the keys of members, in increasing order. -/
def indexes (members : List (Text × Json)) : List Nat :=
  (members.filterMap fun m => index? m.1).mergeSort.eraseDups

/-- The items of a value that is gone through item by item: those of a list, the members under the
indexes of an object that rests on a list, and the characters of a string. -/
def items : Json → List Json
  | .array items => items
  | .object members inherited .lists =>
    let o := Json.object members inherited .lists
    let length := (o.length?.map Decimal.floor).getD 0
    ((indexes (members ++ inherited)).filter (· < length)).filterMap fun (i : Nat) =>
      o.get? (Text.ofInt i)
  | .string t => t.codePoints.map fun c => .string (Text.ofCodePoints [c])
  | _ => []

/-- The prefixes in a value that was not checked. -/
def rankedPrefixes (v : Json) : List RankedPrefix := v.items.filterMap rankedPrefix?

/-- The prefixes of all categories that an object inherits, in the order of the categories. -/
def inheritedPrefixes : Json → List (SymbolCategory × RankedPrefix)
  | .object _ inherited _ =>
    SymbolCategory.all.flatMap fun c =>
      (((inherited.lookup (.ofString c.key)).map rankedPrefixes).getD []).map fun p => (c, p)
  | _ => []

end Json

end SexpEditing
